import SpeechTransducer.Proofs.Search.Interrupted
import SpeechTransducer.Proofs.Search.Peak

/-!
What a failed chunk leaves untouched. An output that a search cannot start on changes nothing. After
that, what is noted between chunks stays with greedy search, and the best path stays with beam
search. Prediction rows that were kept for the next chunk are used up on its first frame by beam
search, and a later failure does not bring them back.
-/

namespace SpeechTransducer.Search

section

variable {ε τ α β γ : Type} {m : EStateM ε τ α} {f : α → EStateM ε τ β} {g : α → EStateM ε τ γ}
variable {s s' : τ} {e : ε}

/-- If steps fail wherever others do, then so they do after the same beginning. -/
theorem error_bind_mono (hfg : ∀ a s₁, f a s₁ = .error e s' → g a s₁ = .error e s')
    (h : (m >>= f) s = .error e s') : (m >>= g) s = .error e s' := by
  have hbind {δ : Type} (k : α → EStateM ε τ δ) : (m >>= k) s = EStateM.bind m k s := rfl
  rw [hbind, EStateM.bind] at h ⊢
  cases hm : m s with
  | ok a s₁ =>
      rw [hm] at h
      exact hfg a s₁ h
  | error e' s₁ =>
      rw [hm] at h
      cases h
      rfl

theorem error_bind (h : m s = .error e s') : (m >>= g) s = .error e s' := by
  have hbind : (m >>= g) s = EStateM.bind m g s := rfl
  rw [hbind, EStateM.bind, h]

end

variable {σ S : Type} {net : Network σ S} {out : Argument S} {s s' : Session σ S} {e : Fault}

namespace Greedy

variable [BEq S] [LT S] [DecidableLT S]

/-- The calls for a first frame, until it is noted. -/
def openingFrame (net : Network σ S) (prediction : List (List S)) : List (List S) → Run σ S Unit
  | [] => pure ()
  | frame :: _ => do
    let logits ← ask (net.join frame prediction)
    let _ ← answered (bestToken logits)

/-- The calls for a chunk, until one of its frames is noted. -/
def opening (net : Network σ S) (out : Argument S) : Run σ S Unit := do
  let frames ← answered (encoderFrames out)
  let st ← look id
  let prediction ←
    match st.prediction with
    | some rows => pure rows
    | none => ask (predict net st.tokens)
  openingFrame net prediction frames

theorem opening_untouched :
    Leaves (opening net out) s (fun _ s' => s'.state = s.state) fun _ s' => s'.state = s.state := by
  have hframe (prediction frames : List (List S)) (network : σ) :
      Leaves (openingFrame net prediction frames) { s with network }
        (fun _ s' => s'.state = s.state) fun _ s' => s'.state = s.state := by
    cases frames with
    | nil => exact .pure rfl
    | cons frame frames =>
        refine .bind_ask .trivial (fun _ _ _ => ?_) fun _ _ _ => rfl
        exact .bind_answered (fun _ _ => .pure rfl) fun _ _ => rfl
  refine .bind_answered (fun frames _ => ?_) fun _ _ => rfl
  refine .bind_look ?_
  dsimp only [id]
  split
  · exact hframe _ _ _
  · exact .bind_ask .trivial (fun _ _ _ => hframe _ _ _) fun _ _ _ => rfl

theorem decode_of_opening (h : opening net out s = .error e s') :
    decode net out s = .error e s' := by
  have hrest (frames prediction : List (List S)) (t : Int) (s₁ : Session σ S)
      (hframe : openingFrame net prediction frames s₁ = .error e s') :
      (decodeFrames net t frames prediction >>= fun rows => change fun st =>
        { st with frameOffset := st.frameOffset + frames.length, prediction := some rows }) s₁ =
          .error e s' := by
    cases frames with
    | nil => cases hframe
    | cons frame frames =>
        refine error_bind (error_bind (error_bind_mono (fun logits s₂ h => ?_) hframe))
        exact error_bind_mono (fun _ _ h => by cases h) h
  refine error_bind_mono (fun frames s₁ => error_bind_mono fun st s₂ => ?_) h
  cases st.prediction with
  | some rows => exact error_bind_mono fun prediction s₃ => hrest frames prediction _ s₃
  | none => exact error_bind_mono fun prediction s₃ => hrest frames prediction _ s₃

/-- What a failed chunk leaves as it was: all that is only noted between chunks, and everything if
the failure comes before a frame is noted. -/
structure Untouched (net : Network σ S) (out : Argument S) (s s' : Session σ S) : Prop where
  frameOffset : s'.state.frameOffset = s.state.frameOffset
  hyps : s'.state.hyps = s.state.hyps
  prediction : s'.state.prediction = s.state.prediction
  opening : ∀ e s'', opening net out s = .error e s'' → s'.state = s.state

theorem decode_untouched (h : decode net out s = .error e s') : Untouched net out s s' := by
  have hopening : ∀ e s'', opening net out s = .error e s'' → s'.state = s.state := by
    intro e' s'' hfail
    have hsame := (decode_of_opening hfail).symm.trans h
    cases hsame
    exact opening_untouched.of_error hfail
  cases hframes : encoderFrames out with
  | error e' =>
      have hall : s'.state = s.state :=
        hopening e' s (by rw [Greedy.opening, hframes]; rfl)
      exact ⟨by rw [hall], by rw [hall], by rw [hall], hopening⟩
  | ok frames =>
      obtain ⟨k, -, hpasses⟩ := (decode_passes hframes).of_error h
      exact ⟨hpasses.frame.1, hpasses.frame.2.1, hpasses.frame.2.2, hopening⟩

end Greedy

namespace Beam

/-- The rows that were kept serve the first frame: there is one path, which has emitted nothing. -/
def Reuses [BEq S] [LT S] [DecidableLT S] (net : Network σ S) (b : Settings) (st : State S) :
    Prop :=
  ∃ hs path, st.hyps = some hs ∧ hs.top b.width = [path] ∧
    (path.tokens.length : Int) = net.contextSize

theorem predict_untouched {isFirst : Bool} {paths : List (Hypothesis S)}
    (h : isFirst = true → ∀ path, paths = [path] → (path.tokens.length : Int) ≠ net.contextSize) :
    Leaves (predict net isFirst paths) s (fun _ s' => s'.state = s.state)
      fun _ s' => s'.state = s.state := by
  have hasked : Leaves (ask (predict.predictAll net paths)) s (fun _ s' => s'.state = s.state)
      fun _ s' => s'.state = s.state := .ask .trivial (fun _ _ _ => rfl) fun _ _ _ => rfl
  refine .bind_look ?_
  split
  · rename_i rows path _
    split
    · rename_i hfirst
      rw [Bool.and_eq_true, beq_iff_eq] at hfirst
      exact absurd hfirst.2 (h hfirst.1 path rfl)
    · exact hasked
  · exact hasked

variable [Zero S] [Add S] [Sub S] [BEq S] [LT S] [DecidableLT S] [LogScale S]
variable {b : Settings} {graph : Option (Hotword.Graph S)}

theorem decodeFrame_untouched {isFirst : Bool} {paths : List (Hypothesis S)}
    (h : isFirst = true → ∀ path, paths = [path] → (path.tokens.length : Int) ≠ net.contextSize)
    (t : Int) (frame : List S) :
    Leaves (decodeFrame net b graph isFirst t frame paths) s (fun _ s' => s'.state = s.state)
      fun _ s' => s'.state = s.state := by
  refine .bind (predict_untouched h) fun prediction s₁ h₁ => ?_
  refine .bind_ask .trivial (fun logits network _ => ?_) fun _ _ _ => h₁
  refine .bind_answered (fun rows _ => ?_) fun _ _ => h₁
  exact .answered (fun _ _ => h₁) fun _ _ => h₁

theorem decodeFrames_untouched {isFirst : Bool} {hs : Hypotheses S}
    (h : isFirst = true → ∀ path, hs.top b.width = [path] →
      (path.tokens.length : Int) ≠ net.contextSize) (t : Int) (frames : List (List S)) :
    Leaves (decodeFrames net b graph isFirst t frames hs) s (fun _ s' => s'.state = s.state)
      fun _ s' => s'.state = s.state := by
  induction frames generalizing isFirst t hs s with
  | nil => exact .pure rfl
  | cons frame frames ih =>
      rw [decodeFrames]
      split
      · exact .pure rfl
      · refine .bind (decodeFrame_untouched h t frame) fun hs' s₁ h₁ => ?_
        rw [← h₁]
        exact ih (fun hfirst => by cases hfirst) (t + 1)

/-- What a failed chunk leaves as it was: the best path and its times, the prediction rows if the
first frame did not use them up, and the paths and the count of frames if one of the frames
failed. -/
structure Untouched (net : Network σ S) (b : Settings) (graph : Option (Hotword.Graph S))
    (out : Argument S) (s s' : Session σ S) : Prop where
  tokens : s'.state.tokens = s.state.tokens
  timestamps : s'.state.timestamps = s.state.timestamps
  trailingBlanks : s'.state.trailingBlanks = s.state.trailingBlanks
  prediction : s'.state.prediction = s.state.prediction ∨
    Reuses net b s.state ∧ s'.state.prediction = none
  frames : ∀ frames hs e s'', encoderFrames out = .ok frames → s.state.hyps = some hs →
    decodeFrames net b graph true s.state.frameOffset frames hs s = .error e s'' →
      s'.state.hyps = s.state.hyps ∧ s'.state.frameOffset = s.state.frameOffset

theorem Untouched.of_state (h : s'.state = s.state) : Untouched net b graph out s s' where
  tokens := by rw [h]
  timestamps := by rw [h]
  trailingBlanks := by rw [h]
  prediction := .inl (by rw [h])
  frames _ _ _ _ _ _ _ := by rw [h]; exact ⟨rfl, rfl⟩

/-- Frames that fail make the chunk fail. -/
theorem decode_of_decodeFrames {frames : List (List S)} {hs : Hypotheses S}
    (hframes : encoderFrames out = .ok frames) (hhyps : s.state.hyps = some hs)
    (h : decodeFrames net b graph true s.state.frameOffset frames hs s = .error e s') :
    decode net b graph out s = .error e s' := by
  have hfull : frames.isEmpty = false := by
    cases frames with
    | nil => cases h
    | cons frame frames => rfl
  simp [decode, hframes, answered, look, hhyps, hfull, bind, EStateM.bind, pure, EStateM.pure, h]

theorem decode_prediction : Leaves (decode net b graph out) s (fun _ _ => True) fun _ s' =>
    s'.state.prediction = s.state.prediction ∨
      Reuses net b s.state ∧ s'.state.prediction = none := by
  refine .bind_answered (fun frames _ => ?_) fun _ _ => .inl rfl
  refine .bind_look ?_
  dsimp only [id]
  split
  · exact .inl rfl
  · rename_i hs hhyps
    have hrun : Leaves (decodeFrames net b graph true s.state.frameOffset frames hs) s
        (fun _ s' => s'.state.prediction = s.state.prediction ∨
          Reuses net b s.state ∧ s'.state.prediction = none)
        fun _ s' => s'.state.prediction = s.state.prediction ∨
          Reuses net b s.state ∧ s'.state.prediction = none := by
      by_cases hreuses : Reuses net b s.state
      · refine (decodeFrames_consumed true _ frames hs).mono ?_ ?_
        · exact fun _ _ h => h.2.prediction.imp_right fun hnone => ⟨hreuses, hnone⟩
        · exact fun _ _ h => h.2.prediction.imp_right fun hnone => ⟨hreuses, hnone⟩
      · have hnot : true = true → ∀ path, hs.top b.width = [path] →
            (path.tokens.length : Int) ≠ net.contextSize :=
          fun _ path htop hlen => hreuses ⟨hs, path, hhyps, htop, hlen⟩
        exact (decodeFrames_untouched hnot _ frames).mono (fun _ _ h => .inl (by rw [h]))
          fun _ _ h => .inl (by rw [h])
    split
    · exact .pure trivial
    · refine .bind (hrun.mono (fun _ _ h => h) fun _ _ h => h) fun hs' s₁ h₁ => ?_
      refine .bind_change ?_
      split
      · exact .pure trivial
      · exact .bind_change (.bind_ask .trivial (fun _ _ _ => .change trivial) fun _ _ _ => h₁)

theorem decode_untouched (h : decode net b graph out s = .error e s') :
    Untouched net b graph out s s' := by
  cases hframes : encoderFrames out with
  | error e' =>
      have hsame : decode net b graph out s = .error e' s := by
        rw [decode, hframes]
        rfl
      cases hsame.symm.trans h
      exact .of_state rfl
  | ok frames =>
      have hpath : s'.state.tokens = s.state.tokens ∧ s'.state.timestamps = s.state.timestamps ∧
          s'.state.trailingBlanks = s.state.trailingBlanks := by
        obtain hconsumed | ⟨mid, hs, hconsumed, heq⟩ := (decode_interrupted hframes).of_error h
        · exact hconsumed.path
        · rw [heq]
          exact hconsumed.path
      refine ⟨hpath.1, hpath.2.1, hpath.2.2, decode_prediction.of_error h, ?_⟩
      intro frames' hs e' s'' hframes' hhyps hfail
      cases (decode_of_decodeFrames hframes' hhyps hfail).symm.trans h
      have hconsumed := ((decodeFrames_consumed true _ frames' hs).of_error hfail).2
      exact ⟨hconsumed.hyps, hconsumed.frameOffset⟩

end Beam

/-- A search cannot start: the encoder output has no frames to it, or there are no paths. -/
def Method.Refuses (m : Method) (out : Argument S) (st : State S) : Prop :=
  (∃ e, encoderFrames out = .error e) ∨ (∃ b, m = .beam b) ∧ st.hyps = none

variable [Zero S] [Add S] [Sub S] [BEq S] [LT S] [DecidableLT S] [LogScale S]

/-- What a failed chunk leaves as it was, by either method. -/
def Method.Untouched (m : Method) (net : Network σ S) (graph : Option (Hotword.Graph S))
    (out : Argument S) (s s' : Session σ S) : Prop :=
  match m with
  | .greedy => Greedy.Untouched net out s s'
  | .beam b => Beam.Untouched net b graph out s s'

theorem Method.decode_of_refuses {m : Method} (net : Network σ S)
    (graph : Option (Hotword.Graph S)) (h : m.Refuses out s.state) :
    ∃ e, m.decode net graph out s = .error e s := by
  obtain ⟨e, he⟩ | ⟨⟨b, rfl⟩, hnone⟩ := h
  · exact ⟨e, m.decode_of_error he⟩
  · cases hframes : encoderFrames out with
    | error e => exact ⟨e, Method.decode_of_error _ hframes⟩
    | ok frames =>
        refine ⟨.searchWithoutHypotheses, ?_⟩
        simp [decode, Beam.decode, hframes, answered, look, hnone, bind, EStateM.bind, pure,
          EStateM.pure]
        rfl

/-- A chunk that a search cannot start on changes nothing, and one that fails later leaves at least
what its method has not come to. -/
theorem Method.decode_failed_untouched (m : Method) (net : Network σ S)
    (graph : Option (Hotword.Graph S)) (out : Argument S) {s s' : Session σ S} {e : Fault}
    (h : m.decode net graph out s = .error e s') :
    (m.Refuses out s.state → s'.state = s.state) ∧ m.Untouched net graph out s s' := by
  constructor
  · intro hrefuses
    obtain ⟨e', hsame⟩ := decode_of_refuses net graph hrefuses
    cases hsame.symm.trans h
    rfl
  · cases m with
    | greedy => exact Greedy.decode_untouched h
    | beam b => exact Beam.decode_untouched h

section Single

/-- Networks for frames of one number, whose only token is the blank. -/
def singleNetwork : Network Unit ℝ where
  contextSize := 1
  predict := fun rows => pure (rows.map fun _ => [0])
  join := fun frame rows =>
    if frame.length = 1 then pure (rows.map fun _ => [0])
    else throw (.shapesDiffer [1, frame.length] [1, 1])

/-- A path that has been silent for some frames. -/
def silentPath (score : ℝ) (frames : Int) : Hypothesis ℝ :=
  { tokens := [0], score, trailingBlanks := frames }

/-- The state after one frame of silence. -/
def silentState (score : ℝ) : State ℝ where
  tokens := [0]
  frameOffset := 1
  trailingBlanks := 1
  hyps := some ⟨.best, [silentPath score 1]⟩
  prediction := some [[0]]

theorem predictAll_silent (score : ℝ) (frames : Int) :
    Beam.predict.predictAll singleNetwork [silentPath score frames] () = .ok [[0]] () := rfl

theorem top_single (path : Hypothesis ℝ) :
    ({ rule := .best, entries := [path] } : Hypotheses ℝ).top 1 = [path] :=
  Beam.top_singleton le_rfl

theorem decodeFrame_silent (st : State ℝ) (hprediction : st.prediction = none) :
    ∃ score, Beam.decodeFrame singleNetwork ⟨1, .best⟩ none true 0 [0] [silentPath 0 0] ⟨(), st⟩ =
      .ok ⟨.best, [silentPath score 1]⟩ ⟨(), st⟩ := by
  obtain ⟨score, hscores⟩ : ∃ score : ℝ, Beam.scoreRows [silentPath 0 0] [[0]] = .ok [[score]] :=
    ⟨_, rfl⟩
  have hbest : Beam.best 1 (Beam.candidates [[score]]) = [⟨0, 0, score⟩] := by
    simp [Beam.best, Beam.candidates]
  have hjoin : singleNetwork.join [0] [[0]] () = .ok [[0]] () := rfl
  have hsuccessors : Beam.successors ⟨1, .best⟩ none 0 [silentPath 0 0] [⟨0, 0, score⟩] =
      .ok ⟨.best, [silentPath (score + 0) 1]⟩ := rfl
  refine ⟨score + 0, ?_⟩
  simp [Beam.decodeFrame, Beam.predict, look, hprediction, ask, predictAll_silent, answered, bind,
    EStateM.bind, hjoin, hscores, hbest, hsuccessors, pure, EStateM.pure]

theorem decode_silent :
    ∃ score, (Method.beam ⟨1, .best⟩).decode singleNetwork none
      (.array { shape := [1, 1, 1], data := #[0] })
      ⟨(), (Method.beam ⟨1, .best⟩).start singleNetwork⟩ = .ok () ⟨(), silentState score⟩ := by
  have hstart : (Method.beam ⟨1, .best⟩).start singleNetwork =
      { tokens := [0], hyps := some ⟨.best, [silentPath 0 0]⟩ } := rfl
  obtain ⟨score, hframe⟩ :=
    decodeFrame_silent ((Method.beam ⟨1, .best⟩).start singleNetwork) rfl
  rw [hstart] at hframe
  have hframes : encoderFrames (.array { shape := [1, 1, 1], data := #[(0 : ℝ)] }) = .ok [[0]] :=
    rfl
  refine ⟨score, ?_⟩
  simp [Method.decode, Beam.decode, hframes, answered, look, hstart, Beam.decodeFrames, top_single,
    hframe, bind, EStateM.bind, pure, EStateM.pure, change, Hypotheses.best?, ask,
    predictAll_silent]
  rfl

/-- A frame of two numbers fails after the rows for it have been taken. -/
theorem decode_silent_fails (score : ℝ) :
    (Method.beam ⟨1, .best⟩).decode singleNetwork none
      (.array { shape := [1, 1, 2], data := #[0, 0] }) ⟨(), silentState score⟩ =
      .error (.shapesDiffer [1, 2] [1, 1]) ⟨(), { silentState score with prediction := none }⟩ := by
  have hframes : encoderFrames (.array { shape := [1, 1, 2], data := #[(0 : ℝ), 0] }) =
      .ok [[0, 0]] := rfl
  have hjoin : singleNetwork.join [0, 0] [[0]] () = .error (.shapesDiffer [1, 2] [1, 1]) () := rfl
  have hblank : ((silentPath score 1).tokens.length : Int) = singleNetwork.contextSize := rfl
  refine Beam.decode_of_decodeFrames hframes rfl ?_
  simp [Beam.decodeFrames, silentState, top_single, Beam.decodeFrame, Beam.predict, look, hblank,
    change, ask, hjoin, bind, EStateM.bind, pure, EStateM.pure]

theorem Method.decode_failed_untouched_first_frame :
    let m := Method.beam ⟨1, .best⟩
    let out : Argument ℝ := .array { shape := [1, 1, 2], data := #[0, 0] }
    ∃ e s s', m.decode singleNetwork none out s = .error e s' ∧ ¬m.Refuses out s.state ∧
      m.Untouched singleNetwork none out s s' := by
  intro m out
  have hfails := decode_silent_fails 0
  have huntouched := (Method.decode_failed_untouched m singleNetwork none out hfails).2
  refine ⟨_, _, _, hfails, ?_, huntouched⟩
  intro hrefuses
  obtain ⟨e, he⟩ | ⟨-, hnone⟩ := hrefuses
  · cases he
  · cases hnone

/-- Rows that were kept are used on the first frame, and are gone when the frame then fails. -/
theorem Method.decode_failed_prediction_lost :
    let m := Method.beam ⟨1, .best⟩
    ∃ e s s',
      m.decode singleNetwork none (.array { shape := [1, 1, 1], data := #[0] })
        ⟨(), m.start singleNetwork⟩ = .ok () s ∧
      m.decode singleNetwork none (.array { shape := [1, 1, 2], data := #[0, 0] }) s =
        .error e s' ∧
      s.state.prediction = some [[0]] ∧ s'.state.prediction = none := by
  intro m
  obtain ⟨score, hruns⟩ := decode_silent
  exact ⟨_, _, _, hruns, decode_silent_fails score, rfl, rfl⟩

end Single

end SpeechTransducer.Search
