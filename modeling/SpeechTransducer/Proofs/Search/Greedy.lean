import SpeechTransducer.Proofs.Search.Exits
import SpeechTransducer.Search.Greedy

/-!
Greedy search. A chunk begins with the prediction rows that were kept, or asks for rows, and ends by
noting what its frames end with. On networks that always answer it goes through on every chunk, and
emits tokens of the vocabulary only.
-/

namespace SpeechTransducer.Search.Greedy

variable {σ S : Type}

/-- What holds of a stream's search between two chunks. -/
structure Sound (net : Network σ S) (vocabulary : Nat) (st : State S) : Prop where
  tokens : Padded net vocabulary st.tokens
  prediction : ∀ rows ∈ st.prediction, rows.length = 1

section

variable [BEq S] [LT S] [DecidableLT S]

private theorem go_lt (ys : List S) {i at_ : Nat} (best : S) (h : at_ < i) :
    rowPeakIndex.go ys i best at_ < i + ys.length := by
  induction ys generalizing i best at_ with
  | nil => simpa [rowPeakIndex.go] using h
  | cons y ys ih =>
      rw [rowPeakIndex.go, List.length_cons]
      split
      · omega
      · split
        · have hlt : rowPeakIndex.go ys (i + 1) y i < i + 1 + ys.length :=
            ih y (Nat.lt_succ_self i)
          omega
        · have hlt : rowPeakIndex.go ys (i + 1) best at_ < i + 1 + ys.length :=
            ih best (Nat.lt_succ_of_lt h)
          omega

theorem bestToken_eq_ok {logits : List (List S)} {vocabulary : Nat} (hpos : 0 < vocabulary)
    (hlen : logits.length = 1) (hrow : ∀ row ∈ logits, row.length = vocabulary) :
    ∃ v < vocabulary, bestToken logits = .ok v := by
  obtain ⟨row, rfl⟩ := List.length_eq_one_iff.mp hlen
  have hrow := hrow row (List.mem_singleton_self row)
  cases row with
  | nil =>
      rw [List.length_nil] at hrow
      omega
  | cons x xs =>
      refine ⟨rowPeakIndex.go xs 1 x 0, ?_, rfl⟩
      have hlt := go_lt xs x Nat.zero_lt_one
      rw [List.length_cons] at hrow
      omega

end

variable {net : Network σ S} {vocabulary : Nat}

theorem sound_start : Sound net vocabulary (start net : State S) :=
  ⟨padded_blanks, by simp [start]⟩

theorem predict_yields (hnet : net.Answering vocabulary) {tokens : List Int}
    (h : Padded net vocabulary tokens) (network : σ) :
    Yields (predict net tokens) network fun rows _ => rows.length = 1 := by
  refine .bind_answered (contexts_eq_ok hnet (by simpa using h)) ?_
  exact hnet.predict _ _

variable [BEq S] [LT S] [DecidableLT S]

theorem decodeFrame_yields (hnet : net.Answering vocabulary) (t : Int) (frame : List S)
    {prediction : List (List S)} (hone : prediction.length = 1) {s : Session σ S}
    (h : Padded net vocabulary s.state.tokens) :
    Yields (decodeFrame net t frame prediction) s fun rows s' =>
      rows.length = 1 ∧ Padded net vocabulary s'.state.tokens := by
  refine .bind_ask (hnet.join frame prediction s.network) fun logits network hlogits => ?_
  obtain ⟨v, hv, hbest⟩ :=
    bestToken_eq_ok hnet.vocabulary_pos (hlogits.1.trans hone) hlogits.2
  refine .bind_answered hbest ?_
  split
  · rename_i hemission
    have hgrown := h.concat (t := v) ⟨hemission, by omega, by omega⟩
    refine .bind_change (.bind_look ?_)
    exact .ask (predict_yields hnet hgrown network) fun rows _ hrows => ⟨hrows, hgrown⟩
  · refine .bind_change ?_
    exact .pure ⟨hone, h⟩

theorem decodeFrames_yields (hnet : net.Answering vocabulary) (t : Int) (frames : List (List S))
    {prediction : List (List S)} (hone : prediction.length = 1) {s : Session σ S}
    (h : Padded net vocabulary s.state.tokens) :
    Yields (decodeFrames net t frames prediction) s fun rows s' =>
      rows.length = 1 ∧ Padded net vocabulary s'.state.tokens := by
  induction frames generalizing t prediction s with
  | nil => exact .pure ⟨hone, h⟩
  | cons frame frames ih =>
      refine Yields.bind (decodeFrame_yields hnet t frame hone h) ?_
      intro rows s' hrows
      exact ih _ hrows.1 hrows.2

/-- A chunk does what its frames do, from the rows that were kept or asked for. -/
theorem decode_leaves {out : Argument S} {frames : List (List S)} {P : List (List S) → Prop}
    {Q : Fault → Prop} {s : Session σ S} {post : Unit → Session σ S → Prop}
    {fail : Fault → Session σ S → Prop} (hframes : encoderFrames out = .ok frames)
    (hkept : ∀ rows ∈ s.state.prediction, P rows)
    (hpredict : s.state.prediction = none →
      Leaves (predict net s.state.tokens) s.network (fun rows _ => P rows) fun e _ => Q e)
    (hfail : ∀ e network, Q e → fail e { s with network })
    (hrun : ∀ rows network, P rows →
      Leaves (decodeFrames net s.state.frameOffset frames rows) { s with network }
        (fun rows' s' => post () { s' with state :=
          { s'.state with
            frameOffset := s'.state.frameOffset + frames.length
            prediction := some rows' } }) fail) :
    Leaves (decode net out) s post fail := by
  have hrest (rows : List (List S)) (network : σ) (hrows : P rows) :
      Leaves (decodeFrames net s.state.frameOffset frames rows >>= fun rows => change fun st =>
        { st with frameOffset := st.frameOffset + frames.length, prediction := some rows })
        { s with network } post fail :=
    (hrun rows network hrows).bind fun _ _ h => .change h
  refine .bind_answered (fun frames' hframes' => ?_) fun e he => by rw [hframes] at he; cases he
  obtain rfl := Except.ok.inj (hframes.symm.trans hframes')
  refine .bind_look ?_
  dsimp only [id]
  split
  · rename_i rows hrows
    exact hrest rows s.network (hkept rows hrows)
  · rename_i hnone
    exact .bind_ask (hpredict hnone) hrest hfail

/-- A chunk goes through. -/
theorem decode_yields (hnet : net.Answering vocabulary) {out : Argument S}
    {frames : List (List S)} (hframes : encoderFrames out = .ok frames) {s : Session σ S}
    (h : Sound net vocabulary s.state) :
    Yields (decode net out) s fun _ s' => Sound net vocabulary s'.state := by
  refine yields_iff_leaves.mpr (decode_leaves (Q := fun _ => False) hframes h.prediction
    (fun _ => (predict_yields hnet h.tokens _).leaves) (fun _ _ hno => hno) ?_)
  intro rows network hone
  refine (decodeFrames_yields (s := { s with network }) hnet _ frames hone h.tokens).leaves.mono
    (fun rows' s' hend => ⟨hend.2, fun kept hkept => ?_⟩) fun _ _ hno => hno
  exact Option.some.inj hkept ▸ hend.1

end SpeechTransducer.Search.Greedy
