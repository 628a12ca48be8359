import SpeechTransducer.Proofs.Search.Counting
import SpeechTransducer.Proofs.Search.Narrow

/-!
What greedy search keeps between two chunks. Its path is in step with the frames decoded so far,
whatever the logits were, and the prediction rows are an answer to the last tokens of that path. So
the rows may be kept for as long as nothing is emitted, over empty chunks too.
-/

namespace SpeechTransducer.Search.Greedy

variable {σ S : Type}

/-- Rows that the prediction network has once answered with to the last tokens of a path. -/
def Predicted (net : Network σ S) (tokens : List Int) (rows : List (List S)) : Prop :=
  ∃ network network', net.predict [net.context tokens] network = .ok rows network'

/-- A greedy search between two chunks, after so many frames. -/
structure Abreast [Zero S] (net : Network σ S) (frames : Nat) (st : State S) : Prop where
  frameOffset : st.frameOffset = frames
  inStep : Beam.InStep net frames (path st)
  prediction : ∀ rows ∈ st.prediction, Predicted net st.tokens rows

section

variable {net : Network σ S} {s : Session σ S}

/-- The context of a path with all its blanks is made of its last tokens. -/
theorem context_eq_drop {tokens : List Int} (hsize : 1 ≤ net.contextSize)
    (hlen : net.contextSize.toNat ≤ tokens.length) :
    net.context tokens = tokens.drop (tokens.length - net.contextSize.toNat) := by
  rw [Network.context, sliceFrom, resolvePosition, if_pos (by omega)]
  congr 1
  omega

theorem predict_predicted (net : Network σ S) (tokens : List Int) (network : σ) :
    Leaves (predict net tokens) network (fun rows _ => Predicted net tokens rows)
      fun _ _ => True := by
  refine .bind_answered (fun contexts hcontexts => ?_) fun _ _ => trivial
  obtain rfl : contexts = [net.context tokens] := Beam.contexts_inv hcontexts
  rw [Leaves]
  split
  · exact ⟨_, _, ‹_›⟩
  · trivial

/-- In one call or row by row, a single row is asked for in the same way. -/
theorem predict_inOneCall (tokens : List Int) :
    predict net.inOneCall tokens = predict net tokens := by
  have hsingle (row : List Int) : net.predictRows [row] = net.predict [row] := by
    rw [Network.predictRows]
    split
    · rfl
    · funext network
      simp only [Network.predictRows.oneByOne, pure_bind, List.append_nil, bind_pure]
  have hcontexts : net.inOneCall.contexts [tokens] = net.contexts [tokens] := rfl
  rw [predict, predict, hcontexts]
  cases h : net.contexts [tokens] with
  | error e => rfl
  | ok contexts =>
      obtain rfl : contexts = [net.context tokens] := Beam.contexts_inv h
      exact hsingle _

variable [BEq S] [LT S] [DecidableLT S]

theorem decode_inOneCall (out : Argument S) : decode net.inOneCall out = decode net out := by
  have hframe : decodeFrame net.inOneCall = decodeFrame net := by
    funext t frame prediction
    simp only [decodeFrame, predict_inOneCall]
    rfl
  have hframes : decodeFrames net.inOneCall = decodeFrames net := by
    funext t frames prediction
    induction frames generalizing t prediction with
    | nil => rfl
    | cons frame frames ih => simp only [decodeFrames, hframe, ih]
  simp only [decode, hframes, predict_inOneCall]

/-- The rows change only when the path does, and then they are asked for anew. -/
theorem decodeFrame_predicted (t : Int) (frame : List S) {prediction : List (List S)}
    (h : Predicted net s.state.tokens prediction) :
    Leaves (decodeFrame net t frame prediction) s
      (fun rows s' => Predicted net s'.state.tokens rows) fun _ _ => True := by
  refine .bind_ask .trivial (fun logits network _ => ?_) fun _ _ _ => trivial
  refine .bind_answered (fun token _ => ?_) fun _ _ => trivial
  split
  · refine .bind_change (.bind_look ?_)
    exact .ask (predict_predicted net _ network) (fun _ _ hrows => hrows) fun _ _ _ => trivial
  · exact .bind_change (.pure h)

theorem decodeFrames_predicted (t : Int) (frames : List (List S)) {prediction : List (List S)}
    (h : Predicted net s.state.tokens prediction) :
    Leaves (decodeFrames net t frames prediction) s
      (fun rows s' => Predicted net s'.state.tokens rows) fun _ _ => True := by
  induction frames generalizing t prediction s with
  | nil => exact .pure h
  | cons frame frames ih =>
      exact .bind (decodeFrame_predicted t frame h) fun rows s' hrows => ih (t + 1) hrows

theorem decode_predicted {out : Argument S} {frames : List (List S)}
    (hframes : encoderFrames out = .ok frames)
    (h : ∀ rows ∈ s.state.prediction, Predicted net s.state.tokens rows) :
    Leaves (decode net out) s
      (fun _ s' => ∃ rows, s'.state.prediction = some rows ∧ Predicted net s'.state.tokens rows)
      fun _ _ => True := by
  refine decode_leaves (Q := fun _ => True) hframes h
    (fun _ => predict_predicted net _ s.network) (fun _ _ _ => trivial) fun rows network hrows => ?_
  have hrun : Leaves (decodeFrames net s.state.frameOffset frames rows) { s with network }
      (fun rows' s' => Predicted net s'.state.tokens rows') fun _ _ => True :=
    decodeFrames_predicted _ frames hrows
  exact hrun.mono (fun rows' _ h' => ⟨rows', rfl, h'⟩) fun _ _ _ => trivial

theorem decodeChunks_yields {vocabulary : Nat} (hnet : net.Responding vocabulary)
    {outs : List (Argument S)} {chunks : List (List (List S))} (houts : Beam.Chunks outs chunks)
    (h : Sound net vocabulary s.state) :
    Yields (decodeChunks net outs) s fun _ s' => Sound net vocabulary s'.state := by
  induction houts generalizing s with
  | nil => exact .pure h
  | cons hframes _ ih =>
      have hdecode : Yields (decode net.inOneCall _) s fun _ s' =>
          Sound net.inOneCall vocabulary s'.state :=
        decode_yields hnet.answering hframes ⟨h.tokens, h.prediction⟩
      rw [decode_inOneCall] at hdecode
      exact .bind hdecode fun _ s' h' => ih ⟨h'.tokens, h'.prediction⟩

end

variable [Zero S] {net : Network σ S} {s : Session σ S}

theorem abreast_start : Abreast net 0 (start net : State S) where
  frameOffset := rfl
  inStep := .blanks 0 none
  prediction := fun rows hrows => by cases hrows

variable [Add S] [Sub S] [BEq S] [LT S] [DecidableLT S]

/-- A chunk leaves the search abreast of its frames, with rows for the next chunk. -/
theorem decode_abreast {out : Argument S} {frames : List (List S)}
    (hframes : encoderFrames out = .ok frames) {n : Nat} (h : Abreast net n s.state) :
    Leaves (decode net out) s
      (fun _ s' => Abreast net (n + frames.length) s'.state ∧ s'.state.prediction ≠ none)
      fun _ _ => True := by
  have hpassed : Leaves (decode net out) s _ _ := decode_passes hframes
  have hrows : Leaves (decode net out) s _ _ := decode_predicted hframes h.prediction
  rw [Leaves]
  split
  · rename_i s' hrun
    obtain ⟨passed, _, hpasses, hstate⟩ := hpassed.of_ok hrun
    obtain ⟨rows, hprediction, hpredicted⟩ := hrows.of_ok hrun
    have hoffset := h.frameOffset
    rw [hoffset] at hpasses hstate
    have hstep := hpasses.inStep (Int.natCast_nonneg n) h.inStep
    rw [← Int.natCast_add] at hstep
    refine ⟨⟨?_, ?_, ?_⟩, ?_⟩
    · rw [hstate, Int.natCast_add]
    · rw [hstate]
      exact hstep
    · intro rows' hrows'
      rw [hprediction] at hrows'
      exact Option.some.inj hrows' ▸ hpredicted
    · rw [hprediction]
      exact Option.some_ne_none rows
  · trivial

theorem decodeChunks_leaves_abreast {outs : List (Argument S)} {chunks : List (List (List S))}
    (houts : Beam.Chunks outs chunks) {n : Nat} (h : Abreast net n s.state) :
    Leaves (decodeChunks net outs) s
      (fun _ s' => Abreast net (n + chunks.flatten.length) s'.state ∧
        (outs ≠ [] ∨ s.state.prediction ≠ none → s'.state.prediction ≠ none))
      fun _ _ => True := by
  induction houts generalizing n s with
  | nil => exact .pure ⟨h, fun hasked => hasked.resolve_left (not_not_intro rfl)⟩
  | cons hframes _ ih =>
      refine .bind (decode_abreast hframes h) fun _ s' h' => ?_
      rw [List.flatten_cons, List.length_append, ← Nat.add_assoc]
      exact (ih h'.1).mono (fun _ _ hend => ⟨hend.1, fun _ => hend.2 (.inr h'.2)⟩) fun _ _ h => h

/-- After every chunk, greedy search from the start is in step with the frames decoded so far: its
tokens are the blanks of the initial context and then neither blanks nor unknown tokens, each with a
time of its own, later than the one before, and the silence is counted from the last of them. What
is kept of the prediction network is an answer to the last tokens. Networks that answer let all
chunks go through. -/
theorem decodeChunks_inStep (net : Network σ S) {outs : List (Argument S)}
    {chunks : List (List (List S))} (houts : Beam.Chunks outs chunks) (network : σ) :
    (∀ s', decodeChunks net outs ⟨network, start net⟩ = .ok () s' →
      s'.state.frameOffset = chunks.flatten.length ∧
      Beam.InStep net s'.state.frameOffset (path s'.state) ∧
      (outs ≠ [] → 1 ≤ net.contextSize → ∃ rows network₁ network₂,
        s'.state.prediction = some rows ∧
        net.predict
          [s'.state.tokens.drop (s'.state.tokens.length - net.contextSize.toNat)] network₁ =
            .ok rows network₂)) ∧
    ∀ vocabulary, net.Responding vocabulary →
      ∃ s', decodeChunks net outs ⟨network, start net⟩ = .ok () s' := by
  constructor
  · intro s' hrun
    have hleaves : Leaves (decodeChunks net outs) ⟨network, start net⟩ _ _ :=
      decodeChunks_leaves_abreast houts abreast_start
    obtain ⟨h, hasked⟩ := hleaves.of_ok hrun
    rw [Nat.zero_add] at h
    refine ⟨h.frameOffset, h.frameOffset ▸ h.inStep, fun hne hsize => ?_⟩
    obtain ⟨rows, hrows⟩ := Option.ne_none_iff_exists'.mp (hasked (.inl hne))
    obtain ⟨network₁, network₂, hpredict⟩ := h.prediction rows hrows
    refine ⟨rows, network₁, network₂, hrows, ?_⟩
    have hlength : (path s'.state).tokens.length = _ := h.inStep.length
    rw [← context_eq_drop hsize]
    · exact hpredict
    · exact Nat.le_of_add_right_le hlength.ge
  · intro vocabulary hnet
    have hyields : Yields (decodeChunks net outs) ⟨network, start net⟩ _ :=
      decodeChunks_yields hnet houts sound_start
    obtain ⟨_, s', hrun, -⟩ := hyields
    exact ⟨s', hrun⟩

theorem decodeChunks_inStep_undefined :
    let net := addingNetwork Float.ofInt 4
    let outs : List (Argument Float) :=
      [.array { shape := [1, 0, 4], data := #[] },
        .array { shape := [1, 2, 4], data := #[0 / 0, 1 / 0, -1 / 0, 0, 1, 1, 1, 1] },
        .array { shape := [1, 1, 4], data := #[0, 0 / 0, 2, 1 / 0] }]
    ∃ s', decodeChunks net outs ⟨(), start net⟩ = .ok () s' ∧ s'.state.frameOffset = 3 ∧
      Beam.InStep net 3 (path s'.state) ∧ ∃ rows, s'.state.prediction = some rows ∧
        net.predict [s'.state.tokens.drop (s'.state.tokens.length - 2)] () = .ok rows () := by
  intro net outs
  have houts : Beam.Chunks outs _ := .cons rfl (.cons rfl (.cons rfl .nil))
  obtain ⟨hkept, hruns⟩ := decodeChunks_inStep net houts ()
  obtain ⟨s', hrun⟩ := hruns 4 (addingNetwork_responding Float.ofInt (by decide) (by decide))
  obtain ⟨hoffset, hstep, hrows⟩ := hkept s' hrun
  obtain ⟨rows, _, _, hprediction, hpredict⟩ := hrows (List.cons_ne_nil _ _) (by decide)
  have hthree : s'.state.frameOffset = 3 := hoffset
  exact ⟨s', hrun, hthree, hthree ▸ hstep, rows, hprediction, hpredict⟩

end SpeechTransducer.Search.Greedy
