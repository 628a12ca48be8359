import SpeechTransducer.Proofs.Search.Exits

/-!
Two runs side by side. The second takes the steps of the first, asks the networks the same, and does
some work of its own in between; where the first run goes through, the second leaves the same
session.
-/

namespace SpeechTransducer.Search

variable {σ S α β α' β' : Type} {s : Session σ S} {R : α → α' → State S → Prop}
variable {Q : β → β' → State S → Prop}

/-- Where one run goes through, another one goes through from the same session and leaves the same
one, with a value that is related to the value of the first. -/
def Mirrored (m : Run σ S α) (m' : Run σ S α') (s : Session σ S) (R : α → α' → State S → Prop) :
    Prop :=
  Leaves m s (fun a s' => ∃ a', m' s = .ok a' s' ∧ R a a' s'.state) fun _ _ => True

theorem Mirrored.pure {a : α} {a' : α'} (h : R a a' s.state) :
    Mirrored (pure a : Run σ S α) (pure a') s R := ⟨a', rfl, h⟩

theorem Mirrored.bind {m : Run σ S α} {m' : Run σ S α'} {k : α → Run σ S β} {k' : α' → Run σ S β'}
    (h : Mirrored m m' s R) (hk : ∀ a a' s', R a a' s'.state → Mirrored (k a) (k' a') s' Q) :
    Mirrored (m >>= k) (m' >>= k') s Q := by
  refine Leaves.bind h ?_
  rintro a s' ⟨a', hm', hR⟩
  have hbind : (m' >>= k') s = k' a' s' := by
    change EStateM.bind m' k' s = _
    rw [EStateM.bind, hm']
  rw [hbind]
  exact hk a a' s' hR

theorem Mirrored.answered {x : Except Fault α} {y : Except Fault α'}
    (h : ∀ a, x = .ok a → ∃ a', y = .ok a' ∧ R a a' s.state) :
    Mirrored (answered x) (answered y) s R := by
  refine Leaves.answered (fun a ha => ?_) fun _ _ => trivial
  obtain ⟨a', rfl, hR⟩ := h a ha
  exact ⟨a', rfl, hR⟩

/-- A step that both runs begin with. -/
theorem Mirrored.bind_same {m : Run σ S α} {k : α → Run σ S β} {k' : α → Run σ S β'}
    {P : α → State S → Prop} (h : Leaves m s (fun a s' => P a s'.state) fun _ _ => True)
    (hk : ∀ a s', P a s'.state → Mirrored (k a) (k' a) s' Q) :
    Mirrored (m >>= k) (m >>= k') s Q := by
  have hm : Mirrored m m s fun a a' st => a' = a ∧ P a st := by
    rw [Mirrored, Leaves]
    split
    · rename_i a s' hrun
      exact ⟨a, hrun, rfl, h.of_ok hrun⟩
    · trivial
  refine hm.bind ?_
  rintro a a' s' ⟨rfl, hP⟩
  exact hk a' s' hP

theorem Mirrored.bind_look {f : State S → α} {k : α → Run σ S β} {k' : α → Run σ S β'}
    (h : Mirrored (k (f s.state)) (k' (f s.state)) s Q) :
    Mirrored (look f >>= k) (look f >>= k') s Q := h

theorem Mirrored.bind_change {f : State S → State S} {k : Unit → Run σ S β}
    {k' : Unit → Run σ S β'} (h : Mirrored (k ()) (k' ()) { s with state := f s.state } Q) :
    Mirrored (change f >>= k) (change f >>= k') s Q := h

theorem Mirrored.bind_ask {call : EStateM Fault σ α} {k : α → Run σ S β} {k' : α → Run σ S β'}
    (hk : ∀ a network, Mirrored (k a) (k' a) { s with network } Q) :
    Mirrored (ask call >>= k) (ask call >>= k') s Q := by
  have hask : Leaves (ask call) s (fun _ s' => s'.state = s.state) fun _ _ => True :=
    .ask .trivial (fun _ _ _ => rfl) fun _ _ _ => trivial
  refine .bind_same (P := fun _ st => st = s.state) hask ?_
  rintro a ⟨network, _⟩ rfl
  exact hk a network

theorem Mirrored.bind_answered {x : Except Fault α} {k : α → Run σ S β} {k' : α → Run σ S β'}
    (hk : ∀ a, Mirrored (k a) (k' a) s Q) :
    Mirrored (Search.answered x >>= k) (Search.answered x >>= k') s Q := by
  cases x with
  | ok a => exact hk a
  | error e => trivial

end SpeechTransducer.Search
