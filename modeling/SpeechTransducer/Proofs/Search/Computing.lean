import SpeechTransducer.Proofs.Search.Chunks

/-!
Networks that compute. Where both networks are functions, the rows that a search asks for are known
beforehand, and so is what each of its steps gives.
-/

namespace SpeechTransducer.Search

variable {σ S : Type}

/-- Networks that compute: the prediction network row by row by a function `f`, whether it takes
several rows in one call or not, and the joiner by a function `g`. -/
structure Network.Computing (net : Network σ S) (f : List Int → List S)
    (g : List S → List (List S) → List (List S)) (vocabulary : Nat) : Prop where
  contextSize : 0 ≤ net.contextSize
  vocabulary_le : vocabulary ≤ 2 ^ 63
  predict : ∀ rows network, net.batched = true →
    Yields (net.predict rows) network fun out _ => out = rows.map f
  predict_row : ∀ row network, Yields (net.predict [row]) network fun out _ => out = [f row]
  join : ∀ frame rows network,
    Yields (net.join frame rows) network fun out _ => out = g frame rows
  shape : ∀ frame rows, (g frame rows).length = rows.length ∧
    ∀ row ∈ g frame rows, row.length = vocabulary

theorem Network.Computing.responding {net : Network σ S} {f : List Int → List S}
    {g : List S → List (List S) → List (List S)} {vocabulary : Nat}
    (h : net.Computing f g vocabulary) (hsize : 1 ≤ net.contextSize) (hpos : 0 < vocabulary) :
    net.Responding vocabulary where
  contextSize := hsize
  vocabulary_pos := hpos
  vocabulary_le := h.vocabulary_le
  predict rows network hbatched := (h.predict rows network hbatched).mono fun out _ hout => by
    rw [hout, List.length_map]
  predict_row row network := (h.predict_row row network).mono fun out _ hout => by
    rw [hout, List.length_singleton]
  join frame rows network := (h.join frame rows network).mono fun out _ hout => by
    rw [hout]
    exact h.shape frame rows

/-- A joiner that works row by row. -/
def rowByRow (j : List S → List S → List S) (frame : List S) (rows : List (List S)) :
    List (List S) :=
  rows.map (j frame)

theorem addingNetwork_computing [Zero S] [Add S] (own : Int → S) {vocabulary : Nat}
    (hle : vocabulary ≤ 2 ^ 63) :
    (addingNetwork own vocabulary).Computing (·.map own) (rowByRow (addedRow vocabulary))
      vocabulary where
  contextSize := by
    change (0 : Int) ≤ 2
    decide
  vocabulary_le := hle
  predict _ _ _ := ⟨_, _, rfl, rfl⟩
  predict_row _ _ := ⟨_, _, rfl, rfl⟩
  join _ _ _ := ⟨_, _, rfl, rfl⟩
  shape _ _ := ⟨List.length_map _, by simp [rowByRow, addedRow]⟩

namespace Beam

/-- The prediction rows of paths, computed from their last tokens. -/
def predictions (net : Network σ S) (f : List Int → List S) (paths : List (Hypothesis S)) :
    Except Fault (List (List S)) := do
  let contexts ← net.contexts (paths.map (·.tokens))
  return contexts.map f

/-- The prediction rows of paths, unless other rows stand for them. -/
def predictionsOr (net : Network σ S) (f : List Int → List S) (kept : Option (List (List S)))
    (paths : List (Hypothesis S)) : Except Fault (List (List S)) :=
  match kept with
  | some rows => .ok rows
  | none => predictions net f paths

variable {net : Network σ S} {f : List Int → List S} {g : List S → List (List S) → List (List S)}
variable {vocabulary : Nat} {paths : List (Hypothesis S)}

theorem predictions_inv {rows : List (List S)} (h : predictions net f paths = .ok rows) :
    rows = paths.map fun h => f (net.context h.tokens) := by
  obtain ⟨contexts, hcontexts, h⟩ := bind_inv h
  rw [← Except.ok.inj h, contexts_inv hcontexts, List.map_map, List.map_map]
  rfl

/-- The tokens of one path are a row of an array. -/
theorem contexts_singleton {tokens : List Int}
    (htokens : ∀ token ∈ tokens, Number.fitsWord token = true) :
    net.contexts [tokens] = .ok [net.context tokens] := by
  have hfits : ¬∃ token ∈ net.context tokens, Number.fitsWord token = false := by
    rintro ⟨token, hmem, htoken⟩
    have hin : token ∈ tokens := List.mem_of_mem_drop hmem
    rw [htokens token hin] at htoken
    cases htoken
  simp [Network.contexts, tokenRows, Tensor.even, hfits, bind, Except.bind, pure, Except.pure]

theorem predictions_singleton {h : Hypothesis S}
    (htokens : ∀ token ∈ h.tokens, Number.fitsWord token = true) :
    ∃ rows, predictions net f [h] = .ok rows := by
  rw [predictions, List.map_singleton, contexts_singleton htokens]
  exact ⟨_, rfl⟩

theorem predictAll_computing (hnet : net.Computing f g vocabulary)
    (paths : List (Hypothesis S)) (network : σ) :
    Leaves (predict.predictAll net paths) network
      (fun rows _ => predictions net f paths = .ok rows)
      fun e _ => predictions net f paths = .error e := by
  refine .bind_answered (fun contexts hcontexts => ?_) fun e he => ?_
  · rw [predictions, hcontexts]
    have hrows : Leaves (net.predictRows contexts) network (fun out _ => out = contexts.map f)
        fun _ _ => False := by
      apply predictRows_leaves (p := fun rows out => out = rows.map f)
      · rfl
      · rintro row rows _ _ rfl rfl
        rfl
      · intro rows network hbatched
        exact (hnet.predict rows network hbatched).leaves
      · intro row network
        exact (hnet.predict_row row network).leaves
    refine hrows.mono (fun out _ hout => ?_) fun _ _ hno => hno.elim
    rw [hout]
    rfl
  · rw [predictions, he]
    rfl

variable {α β : Type} {s : Session σ S}

/-- A step of a search gives a value or a fault that is known beforehand, and at most uses up
prediction rows. -/
def Gives (m : Run σ S α) (s : Session σ S) (x : Except Fault α) : Prop :=
  Leaves m s (fun a s' => x = .ok a ∧ Consumed s.state s'.state)
    fun e s' => x = .error e ∧ Consumed s.state s'.state

theorem Gives.of_eq_ok {m : Run σ S α} {x : Except Fault α} {a : α} (h : Gives m s x)
    (hx : x = .ok a) : ∃ s', m s = .ok a s' := by
  cases hm : m s with
  | error e s' => cases hx.symm.trans (h.of_error hm).1
  | ok a' s' =>
      obtain rfl := Except.ok.inj (hx.symm.trans (h.of_ok hm).1)
      exact ⟨s', rfl⟩

theorem Gives.pure (a : α) : Gives (pure a) s (.ok a) := Leaves.pure ⟨rfl, .refl _⟩

theorem Gives.answered (x : Except Fault α) : Gives (answered x) s x :=
  Leaves.answered (fun _ hx => ⟨hx, .refl _⟩) fun _ hx => ⟨hx, .refl _⟩

theorem Gives.bind {m : Run σ S α} {k : α → Run σ S β} {x : Except Fault α}
    {y : α → Except Fault β} (hm : Gives m s x) (hk : ∀ a s', x = .ok a → Gives (k a) s' (y a)) :
    Gives (m >>= k) s (x >>= y) := by
  refine Leaves.bind (hm.mono (fun _ _ h => h) ?_) ?_
  · rintro e s' ⟨rfl, hconsumed⟩
    exact ⟨rfl, hconsumed⟩
  · rintro a s' ⟨rfl, hconsumed⟩
    exact (hk a s' rfl).mono (fun _ _ h => ⟨h.1, hconsumed.trans h.2⟩)
      fun _ _ h => ⟨h.1, hconsumed.trans h.2⟩

theorem Gives.bind_ask {call : EStateM Fault σ α} {k : α → Run σ S β} {a : α} {y : Except Fault β}
    (hcall : Yields call s.network fun out _ => out = a)
    (hk : ∀ network, Gives (k a) { s with network } y) : Gives (ask call >>= k) s y := by
  refine Leaves.bind_ask (q := fun _ => False) hcall.leaves ?_ fun _ _ hno => hno.elim
  rintro _ network rfl
  exact hk network

theorem predict_gives (hnet : net.Computing f g vocabulary) {isFirst : Bool}
    (hkept : ∀ rows ∈ s.state.prediction, ∀ path, isFirst = true → paths = [path] →
      predictions net f [path] = .ok rows) :
    Gives (predict net isFirst paths) s (predictions net f paths) := by
  refine predict_leaves ?_ (predictAll_computing hnet paths)
  intro rows hrows path hfirst honly _
  rw [honly]
  exact hkept rows hrows path hfirst honly

theorem predict_gives_kept {rows : List (List S)} {path : Hypothesis S}
    (hrows : s.state.prediction = some rows) (hlen : path.tokens.length = net.contextSize) :
    Gives (predict net true [path]) s (.ok rows) := by
  refine Leaves.bind_look ?_
  rw [hrows]
  have hfirst : (true && (path.tokens.length : Int) == net.contextSize) = true := by
    rw [Bool.true_and, beq_iff_eq, hlen]
  simp only [hfirst, if_true]
  exact .bind_change (.pure ⟨rfl, .inr rfl⟩)

end Beam

end SpeechTransducer.Search
