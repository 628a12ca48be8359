import SpeechTransducer.Proofs.Search.Answering

/-!
Both exits of a step. A step that goes through gives a value and leaves a state; a step that fails
gives a fault and leaves a state as well. `Leaves` bounds both at once, so that what a search keeps
up can be followed through networks that may fail.
-/

namespace SpeechTransducer.Search

section

variable {ε τ α β : Type}

/-- If a step goes through, then its value and state have one property, and if it fails, then its
fault and state have another. -/
def Leaves (m : EStateM ε τ α) (s : τ) (post : α → τ → Prop) (fail : ε → τ → Prop) : Prop :=
  match m s with
  | .ok a s' => post a s'
  | .error e s' => fail e s'

variable {m : EStateM ε τ α} {s : τ} {post : α → τ → Prop} {fail : ε → τ → Prop}

theorem Leaves.of_ok {a : α} {s' : τ} (h : Leaves m s post fail) (hm : m s = .ok a s') :
    post a s' := by
  rw [Leaves, hm] at h
  exact h

theorem Leaves.of_error {e : ε} {s' : τ} (h : Leaves m s post fail) (hm : m s = .error e s') :
    fail e s' := by
  rw [Leaves, hm] at h
  exact h

theorem Leaves.trivial : Leaves m s (fun _ _ => True) fun _ _ => True := by
  rw [Leaves]
  split <;> exact True.intro

theorem Leaves.pure {a : α} (h : post a s) : Leaves (pure a : EStateM ε τ α) s post fail := h

theorem Leaves.mono {post' : α → τ → Prop} {fail' : ε → τ → Prop} (h : Leaves m s post fail)
    (hpost : ∀ a s', post a s' → post' a s') (hfail : ∀ e s', fail e s' → fail' e s') :
    Leaves m s post' fail' := by
  rw [Leaves]
  cases hm : m s with
  | ok a s' => exact hpost a s' (h.of_ok hm)
  | error e s' => exact hfail e s' (h.of_error hm)

theorem Leaves.bind {f : α → EStateM ε τ β} {mid : α → τ → Prop} {post : β → τ → Prop}
    (h : Leaves m s mid fail) (hf : ∀ a s', mid a s' → Leaves (f a) s' post fail) :
    Leaves (m >>= f) s post fail := by
  have hbind : (m >>= f) s = EStateM.bind m f s := rfl
  rw [Leaves, hbind, EStateM.bind]
  cases hm : m s with
  | ok a s' => exact hf a s' (h.of_ok hm)
  | error e s' => exact h.of_error hm

theorem Leaves.answered {x : Except ε α} (hok : ∀ a, x = .ok a → post a s)
    (herror : ∀ e, x = .error e → fail e s) :
    Leaves (Search.answered x : EStateM ε τ α) s post fail := by
  cases x with
  | ok a => exact hok a rfl
  | error e => exact herror e rfl

theorem Leaves.bind_answered {x : Except ε α} {f : α → EStateM ε τ β} {post : β → τ → Prop}
    (hok : ∀ a, x = .ok a → Leaves (f a) s post fail) (herror : ∀ e, x = .error e → fail e s) :
    Leaves (Search.answered x >>= f) s post fail := by
  cases x with
  | ok a => exact hok a rfl
  | error e => exact herror e rfl

/-- A step that cannot fail goes through. -/
theorem yields_iff_leaves : Yields m s post ↔ Leaves m s post fun _ _ => False := by
  constructor
  · rintro ⟨a, s', hm, hpost⟩
    rw [Leaves, hm]
    exact hpost
  · intro h
    cases hm : m s with
    | ok a s' => exact ⟨a, s', hm, h.of_ok hm⟩
    | error e s' => exact (h.of_error hm).elim

theorem Yields.leaves (h : Yields m s post) : Leaves m s post fail :=
  (yields_iff_leaves.mp h).mono (fun _ _ h => h) fun _ _ h => h.elim

end

variable {σ S α β : Type} {s : Session σ S} {post : β → Session σ S → Prop}
variable {fail : Fault → Session σ S → Prop}

theorem Leaves.ask {call : EStateM Fault σ β} {p : β → Prop} {q : Fault → Prop}
    (h : Leaves call s.network (fun a _ => p a) fun e _ => q e)
    (hpost : ∀ a network, p a → post a { s with network })
    (hfail : ∀ e network, q e → fail e { s with network }) :
    Leaves (Search.ask call) s post fail := by
  rw [Leaves, Search.ask]
  cases hcall : call s.network with
  | ok a network => exact hpost a network (h.of_ok hcall)
  | error e network => exact hfail e network (h.of_error hcall)

theorem Leaves.bind_ask {call : EStateM Fault σ α} {f : α → Run σ S β} {p : α → Prop}
    {q : Fault → Prop} (h : Leaves call s.network (fun a _ => p a) fun e _ => q e)
    (hf : ∀ a network, p a → Leaves (f a) { s with network } post fail)
    (hfail : ∀ e network, q e → fail e { s with network }) :
    Leaves (Search.ask call >>= f) s post fail := by
  have hask : Leaves (Search.ask call) s
      (fun a s' => p a ∧ ∃ network, s' = { s with network }) fail :=
    .ask h (fun _ network hp => ⟨hp, network, rfl⟩) hfail
  refine hask.bind ?_
  intro a s' hs'
  obtain ⟨hp, network, rfl⟩ := hs'
  exact hf a network hp

theorem Leaves.bind_look {f : State S → α} {g : α → Run σ S β}
    (h : Leaves (g (f s.state)) s post fail) : Leaves (look f >>= g) s post fail := h

theorem Leaves.change {f : State S → State S} {post : Unit → Session σ S → Prop}
    (h : post () { s with state := f s.state }) : Leaves (change f) s post fail := h

theorem Leaves.bind_change {f : State S → State S} {g : Unit → Run σ S β}
    (h : Leaves (g ()) { s with state := f s.state } post fail) :
    Leaves (Search.change f >>= g) s post fail := h

end SpeechTransducer.Search
