import Mathlib.Algebra.Order.Ring.Nat
import SpeechTransducer.Search.State

/-!
Networks that always answer, and what a search has to keep up so that they are asked nothing else
than what they answer: all paths begin with the blanks of the initial context, and all their other
tokens are numbers of the vocabulary.
-/

namespace SpeechTransducer.Search

section

variable {ε τ α β : Type}

/-- A step goes through, and what it gives and leaves has a property. -/
def Yields (m : EStateM ε τ α) (s : τ) (post : α → τ → Prop) : Prop :=
  ∃ a s', m s = .ok a s' ∧ post a s'

variable {m : EStateM ε τ α} {s : τ} {post : α → τ → Prop}

theorem Yields.pure {a : α} (h : post a s) : Yields (pure a : EStateM ε τ α) s post :=
  ⟨a, s, rfl, h⟩

theorem Yields.mono {post' : α → τ → Prop} (h : Yields m s post)
    (hsub : ∀ a s', post a s' → post' a s') : Yields m s post' := by
  obtain ⟨a, s', hm, hpost⟩ := h
  exact ⟨a, s', hm, hsub a s' hpost⟩

theorem Yields.bind {f : α → EStateM ε τ β} {post' : β → τ → Prop} (h : Yields m s post)
    (hf : ∀ a s', post a s' → Yields (f a) s' post') : Yields (m >>= f) s post' := by
  obtain ⟨a, s', hm, hpost⟩ := h
  obtain ⟨b, s'', hb, hpost'⟩ := hf a s' hpost
  refine ⟨b, s'', ?_, hpost'⟩
  change EStateM.bind m f s = _
  rw [EStateM.bind, hm]
  exact hb

theorem Yields.answered {x : Except ε α} {a : α} (hx : x = .ok a) (h : post a s) :
    Yields (Search.answered x : EStateM ε τ α) s post := by
  rw [hx]
  exact .pure h

theorem Yields.bind_answered {x : Except ε α} {a : α} {f : α → EStateM ε τ β}
    {post : β → τ → Prop} (hx : x = .ok a) (h : Yields (f a) s post) :
    Yields (Search.answered x >>= f) s post := by
  rw [hx]
  exact h

end

section

variable {σ S α β : Type} {s : Session σ S} {post : β → Session σ S → Prop}

theorem Yields.ask {call : EStateM Fault σ β} {p : β → Prop}
    (h : Yields call s.network fun a _ => p a)
    (hpost : ∀ a network, p a → post a { s with network }) : Yields (ask call) s post := by
  obtain ⟨a, network, hcall, hp⟩ := h
  refine ⟨a, { s with network }, ?_, hpost a network hp⟩
  rw [Search.ask, hcall]

theorem Yields.bind_ask {call : EStateM Fault σ α} {f : α → Run σ S β} {p : α → Prop}
    (h : Yields call s.network fun a _ => p a)
    (hf : ∀ a network, p a → Yields (f a) { s with network } post) :
    Yields (Search.ask call >>= f) s post := by
  have hask : Yields (Search.ask call) s fun a s' => p a ∧ ∃ network, s' = { s with network } :=
    .ask h fun _ network hp => ⟨hp, network, rfl⟩
  refine hask.bind ?_
  intro a s' hs'
  obtain ⟨hp, network, rfl⟩ := hs'
  exact hf a network hp

theorem Yields.bind_look {f : State S → α} {g : α → Run σ S β}
    (h : Yields (g (f s.state)) s post) : Yields (look f >>= g) s post := h

theorem Yields.change {f : State S → State S} {post : Unit → Session σ S → Prop}
    (h : post () { s with state := f s.state }) : Yields (change f) s post :=
  ⟨_, _, rfl, h⟩

theorem Yields.bind_change {f : State S → State S} {g : Unit → Run σ S β}
    (h : Yields (g ()) { s with state := f s.state } post) :
    Yields (Search.change f >>= g) s post :=
  h

end

variable {σ S : Type}

/-- Networks that answer every call, with one row for each row that they are given. A row of logits
has an entry for each token of the vocabulary. -/
structure Network.Answering (net : Network σ S) (vocabulary : Nat) : Prop where
  contextSize : 1 ≤ net.contextSize
  vocabulary_pos : 0 < vocabulary
  vocabulary_le : vocabulary ≤ 2 ^ 63
  predict : ∀ rows network, Yields (net.predict rows) network fun out _ => out.length = rows.length
  join : ∀ frame rows network, Yields (net.join frame rows) network fun out _ =>
    out.length = rows.length ∧ ∀ row ∈ out, row.length = vocabulary

/-- A token of the vocabulary that extends paths. -/
structure Emitted (vocabulary : Nat) (t : Int) : Prop where
  isEmission : isEmission t = true
  nonneg : 0 ≤ t
  lt : t < vocabulary

/-- The tokens of a path: the blanks of the initial context, and tokens of the vocabulary. -/
def Padded (net : Network σ S) (vocabulary : Nat) (tokens : List Int) : Prop :=
  ∃ emitted, tokens = List.replicate net.contextSize.toNat blankToken ++ emitted ∧
    ∀ t ∈ emitted, Emitted vocabulary t

section

variable {net : Network σ S} {vocabulary : Nat} {tokens : List Int}

theorem padded_blanks :
    Padded net vocabulary (List.replicate net.contextSize.toNat blankToken) :=
  ⟨[], (List.append_nil _).symm, by simp⟩

theorem Padded.concat (h : Padded net vocabulary tokens) {t : Int} (ht : Emitted vocabulary t) :
    Padded net vocabulary (tokens ++ [t]) := by
  obtain ⟨emitted, rfl, hemitted⟩ := h
  refine ⟨emitted ++ [t], List.append_assoc _ _ _, ?_⟩
  intro u hu
  obtain hu | hu := List.mem_append.mp hu
  · exact hemitted u hu
  · exact List.mem_singleton.mp hu ▸ ht

theorem Padded.sliceFrom (h : Padded net vocabulary tokens) (hsize : 0 ≤ net.contextSize) :
    ∀ t ∈ sliceFrom net.contextSize tokens, Emitted vocabulary t := by
  obtain ⟨emitted, rfl, hemitted⟩ := h
  have hplace : resolvePosition
      (List.replicate net.contextSize.toNat blankToken ++ emitted).length net.contextSize =
        (List.replicate net.contextSize.toNat blankToken).length := by
    rw [resolvePosition, if_neg (by omega), List.length_append, List.length_replicate]
    omega
  rw [SpeechTransducer.sliceFrom, hplace, List.drop_left]
  exact hemitted

theorem Padded.fitsWord (h : Padded net vocabulary tokens) (hle : vocabulary ≤ 2 ^ 63) :
    ∀ t ∈ tokens, Number.fitsWord t = true := by
  obtain ⟨emitted, rfl, hemitted⟩ := h
  intro t ht
  obtain ht | ht := List.mem_append.mp ht
  · rw [List.eq_of_mem_replicate ht]
    decide
  · have hnonneg := (hemitted t ht).nonneg
    have hlt := (hemitted t ht).lt
    rw [Number.fitsWord, Bool.and_eq_true, decide_eq_true_iff, decide_eq_true_iff]
    omega

theorem Padded.context_length (h : Padded net vocabulary tokens) (hsize : 1 ≤ net.contextSize) :
    (net.context tokens).length = net.contextSize.toNat := by
  obtain ⟨emitted, rfl, -⟩ := h
  rw [Network.context, SpeechTransducer.sliceFrom, List.length_drop, resolvePosition,
    if_pos (by omega), List.length_append, List.length_replicate]
  omega

/-- The contexts of such paths make an array. -/
theorem contexts_eq_ok (hnet : net.Answering vocabulary) {paths : List (List Int)}
    (h : ∀ tokens ∈ paths, Padded net vocabulary tokens) :
    net.contexts paths = .ok (paths.map net.context) := by
  have heven : Tensor.even (paths.map net.context) = .ok () := by
    rw [Tensor.even, if_pos]
    rw [List.all_eq_true]
    intro row hrow
    obtain ⟨tokens, htokens, rfl⟩ := List.mem_map.mp hrow
    have hlen := (h tokens htokens).context_length hnet.contextSize
    cases paths with
    | nil => simp at htokens
    | cons first paths =>
        have hfirst := (h first List.mem_cons_self).context_length hnet.contextSize
        simp [hlen, hfirst]
  have hfits : (paths.map net.context).any (fun r => r.any (!Number.fitsWord ·)) = false := by
    rw [List.any_eq_false]
    intro row hrow
    obtain ⟨tokens, htokens, rfl⟩ := List.mem_map.mp hrow
    rw [Bool.not_eq_true, List.any_eq_false]
    intro t ht
    have hmem : t ∈ tokens := List.mem_of_mem_drop ht
    simp [(h tokens htokens).fitsWord hnet.vocabulary_le t hmem]
  rw [Network.contexts, tokenRows, heven]
  simp only [hfits]
  rfl

end

end SpeechTransducer.Search
