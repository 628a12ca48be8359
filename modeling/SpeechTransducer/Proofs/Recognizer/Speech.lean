import SpeechTransducer.Proofs.Recognizer.Failing
import SpeechTransducer.Proofs.Score.Exact
import SpeechTransducer.Proofs.Search.Counting

/-!
How endpoints tell speech from silence. An utterance is taken for silent if it is not longer than
its trailing silence. Its length is what the stream has passed, in frames of features; its silence
is what the search has counted, in frames of the encoder. As long as every pass over a window gives
the frames that stand for it, the two say the same about an utterance: it is longer than its silence
if and only if a token has been emitted in it.
-/

namespace SpeechTransducer

variable {σ S : Type} [Zero S] [Add S] [Sub S] [BEq S] [LT S] [DecidableLT S] [LogScale S]
variable {r : Recognizer σ S} {s s' : Session σ S}

/-- A decoding that goes through has asked the encoder and the search. -/
theorem decode_ok_inv {features : Tensor S} (hwindow : r.window s.stream = .ok features)
    (h : r.decode s = .ok () s') :
    ∃ out network found, r.encoded s features = Search.encoderFrames out ∧
      r.method.decode r.model.toNetwork r.graph out ⟨network, s.stream.search⟩ = .ok () found ∧
      s'.stream.search = found.state ∧
      s'.stream.processed = s.stream.processed + r.model.offset := by
  obtain ⟨hready, hframes⟩ := window_inv hwindow
  rw [Recognizer.decode] at h
  rw [Recognizer.encoded]
  simp only [hready, Bool.not_true, Bool.false_eq_true, if_false, hframes] at h
  cases hencode : r.model.encode features s.stream.encoderStates s.network with
  | error f network =>
      rw [hencode] at h
      cases h
  | ok answer network =>
      obtain ⟨out, states⟩ := answer
      rw [hencode] at h
      dsimp only at h
      cases hsearch : r.method.decode r.model.toNetwork r.graph out
          ⟨network, s.stream.search⟩ with
      | error f found =>
          rw [hsearch] at h
          cases h
      | ok _ found =>
          rw [hsearch] at h
          cases h
          exact ⟨out, network, found, rfl, hsearch, rfl, rfl⟩

/-- A decoding stays where it is or moves on to the next window. -/
theorem decode_position (r : Recognizer σ S) (s : Session σ S) :
    (leftBehind (r.decode s)).stream.position = s.stream.position ∨
      (leftBehind (r.decode s)).stream.position = s.stream.position + r.model.offset := by
  have hpassed (s' : Session σ S) (hstart : s'.stream.start = s.stream.start)
      (hprocessed : s'.stream.processed = s.stream.processed + r.model.offset) :
      s'.stream.position = s.stream.position + r.model.offset := by
    rw [Stream.position, Stream.position, hstart, hprocessed, Int.add_assoc]
  cases hdecode : r.decode s with
  | ok _ s' =>
      obtain ⟨search, states, hst⟩ := Conversation.decode_inv hdecode
      exact .inr (hpassed s' (hst ▸ rfl) (hst ▸ rfl))
  | error e s' =>
      cases hwindow : r.window s.stream with
      | error f =>
          rw [decode_of_unread hwindow] at hdecode
          cases hdecode
          exact .inl rfl
      | ok features =>
          obtain ⟨hst, -⟩ := (decode_of_read hwindow).of_error hdecode
          exact .inr (hpassed s' (hst ▸ rfl) (hst ▸ rfl))

/-- The stream has passed what its search has decoded. -/
structure InTime (r : Recognizer σ S) (st : Stream S) : Prop where
  processed : st.processed = subsampling * st.search.frameOffset
  search : r.method.InStep r.model.toNetwork st.search

omit [Add S] [Sub S] [LogScale S] in
/-- Counted in frames of features, the silence at the end of an utterance is shorter than the
utterance if and only if there is a token. -/
theorem InTime.silence_lt_processed_iff {st : Stream S} (h : InTime r st) :
    st.search.trailingBlanks * subsampling < st.processed ↔
      (r.method.strip r.model.toNetwork st.search).tokens ≠ [] := by
  rw [h.processed, ← h.search.trailingBlanks_lt_iff, subsampling]
  omega

/-- A decoding that goes through if it can read its window, with as many frames from the encoder as
stand for the distance to the next one. -/
def OnTime (r : Recognizer σ S) (s : Session σ S) : Prop :=
  ∀ features, r.window s.stream = .ok features →
    (∃ s', r.decode s = .ok () s') ∧
    ∃ frames, r.encoded s features = .ok frames ∧ subsampling * frames.length = r.model.offset

theorem decode_inTime (hm : r.method.Steady r.model.toNetwork) (hs : OnTime r s)
    (h : InTime r s.stream) : InTime r (leftBehind (r.decode s)).stream := by
  cases hwindow : r.window s.stream with
  | error f =>
      rw [decode_of_unread hwindow]
      exact h
  | ok features =>
      obtain ⟨⟨s', hdecode⟩, frames, hencoded, hcount⟩ := hs features hwindow
      obtain ⟨out, network, found, hout, hfound, hsearch, hprocessed⟩ :=
        decode_ok_inv hwindow hdecode
      have hleaves : Search.Leaves (r.method.decode r.model.toNetwork r.graph out)
          ⟨network, s.stream.search⟩ _ _ :=
        Search.Method.decode_inStep hm (hout.symm.trans hencoded) h.search
      obtain ⟨hstep, hoffset⟩ := hleaves.of_ok hfound
      rw [hdecode]
      refine ⟨?_, ?_⟩
      · change s'.stream.processed = subsampling * s'.stream.search.frameOffset
        rw [hprocessed, hsearch, hoffset, h.processed, ← hcount, Int.mul_add]
      · change r.method.InStep r.model.toNetwork s'.stream.search
        rw [hsearch]
        exact hstep

theorem inTime_freshSearch (hm : r.method.Steady r.model.toNetwork) {st : Stream S}
    (hprocessed : st.processed = 0) (hsearch : st.search = r.freshSearch) : InTime r st := by
  obtain ⟨hstep, hoffset⟩ := Search.Method.inStep_start hm r.graph
  refine ⟨?_, hsearch ▸ hstep⟩
  rw [hprocessed, hsearch, Recognizer.freshSearch, hoffset]
  rfl

theorem inTime_newStream (hm : r.method.Steady r.model.toNetwork) {st : Stream S}
    (h : r.newStream = .ok st) : InTime r st := by
  obtain ⟨_, -, h⟩ := bind_inv h
  obtain ⟨_, -, h⟩ := bind_inv h
  obtain ⟨_, -, h⟩ := bind_inv h
  obtain rfl := Except.ok.inj h
  exact inTime_freshSearch hm rfl rfl

variable [LE S] [DecidableLE S] [Countable S] [HMul Int S S]

/-- In a run every decoding that can read its window is on time. -/
def OnTimeRun (r : Recognizer σ S) : Session σ S → List (Call S) → Prop
  | _, [] => True
  | s, c :: calls => (c = .decode → OnTime r s) ∧ OnTimeRun r (c.perform r s) calls

/-- Other calls than decodings and restarts change the audio of a stream, or close its utterance. -/
theorem perform_frame (r : Recognizer σ S) (s : Session σ S) (c : Call S) :
    c = .decode ∨ c = .restart ∨ ∃ extractor isFinal,
      c.perform r s = { s with stream := { s.stream with extractor, isFinal } } := by
  cases c with
  | accept rate samples =>
      rw [Call.perform, Stream.accept, leftBehind_withExtractor]
      exact .inr (.inr ⟨_, _, rfl⟩)
  | finish =>
      rw [Call.perform, Stream.finish, leftBehind_withExtractor]
      exact .inr (.inr ⟨_, _, rfl⟩)
  | decode => exact .inl rfl
  | isEndpoint => exact .inr (.inr ⟨_, _, rfl⟩)
  | transcript =>
      rw [Call.perform]
      obtain hsame | hfinal := leftBehind_transcript r s.stream
      · rw [hsame]
        exact .inr (.inr ⟨_, _, rfl⟩)
      · rw [hfinal]
        exact .inr (.inr ⟨_, _, rfl⟩)
  | restart => exact .inr (.inl rfl)

theorem perform_inTime (hm : r.method.Steady r.model.toNetwork) (c : Call S)
    (hs : c = .decode → OnTime r s) (h : InTime r s.stream) :
    InTime r (c.perform r s).stream := by
  obtain rfl | rfl | ⟨extractor, isFinal, hperform⟩ := perform_frame r s c
  · exact decode_inTime hm (hs rfl) h
  · have hfreshly : InTime r { search := r.freshSearch } := inTime_freshSearch hm rfl rfl
    obtain ⟨hprocessed, hfresh⟩ := hfreshly
    exact ⟨hprocessed, h.search.hand hfresh⟩
  · rw [hperform]
    exact ⟨h.processed, h.search⟩

theorem perform_all_inTime (hm : r.method.Steady r.model.toNetwork) (calls : List (Call S))
    (hcalls : OnTimeRun r s calls) (h : InTime r s.stream) :
    InTime r (calls.foldl (Call.perform r) s).stream := by
  induction calls generalizing s with
  | nil => exact h
  | cons c calls ih => exact ih hcalls.2 (perform_inTime hm c hcalls.1 h)

section

variable {vocabulary : Nat} (hr : r.Dependable vocabulary) (hoffset : 0 ≤ r.model.offset)

include hr

omit [LE S] [DecidableLE S] [HMul Int S S] in
theorem onTime_of_dependable
    (hframes : ∀ features frames, r.encoded s features = .ok frames →
      subsampling * frames.length = r.model.offset)
    (hpos : 0 ≤ s.stream.position)
    (hsound : r.method.Sound r.model.toNetwork vocabulary r.graph s.stream.search) :
    OnTime r s := by
  intro features hwindow
  obtain ⟨_, s', hdecode, -⟩ :=
    Conversation.decode_yields hr hpos (window_inv hwindow).1 hsound
  obtain ⟨answer, network, hencode, frames, hout⟩ :=
    hr.encode features s.stream.encoderStates s.network
  have hencoded : r.encoded s features = .ok frames := by
    rw [Recognizer.encoded, hencode]
    exact hout
  exact ⟨⟨s', hdecode⟩, frames, hencoded, hframes features frames hencoded⟩

include hoffset

omit hr in
/-- No call goes back to a window before. -/
theorem perform_position_nonneg (c : Call S) (hpos : 0 ≤ s.stream.position) :
    0 ≤ (c.perform r s).stream.position := by
  obtain rfl | rfl | ⟨extractor, isFinal, hperform⟩ := perform_frame r s c
  · obtain hsame | hnext := decode_position r s
    · exact hsame ▸ hpos
    · exact hnext ▸ Int.add_nonneg hpos hoffset
  · have hposition : (r.restart s.stream).position = s.stream.position := Int.add_zero _
    exact hposition ▸ hpos
  · rw [hperform]
    exact hpos

/-- A recognizer that has all it needs is on time, if its encoder makes the right number of
frames. -/
theorem onTimeRun_of_dependable
    (hframes : ∀ (s : Session σ S) features frames, r.encoded s features = .ok frames →
      subsampling * frames.length = r.model.offset)
    (hpos : 0 ≤ s.stream.position)
    (hsound : r.method.Sound r.model.toNetwork vocabulary r.graph s.stream.search)
    (calls : List (Call S)) : OnTimeRun r s calls := by
  induction calls generalizing s with
  | nil => trivial
  | cons c calls ih =>
      -- That a call keeps the search sound is known of the recognizer under watch.
      have hperform : (c.perform r.watched ⟨(s.network, []), s.stream⟩).unwatched =
          c.perform r s := unwatched_perform c
      have hsound' := perform_sound (s := ⟨(s.network, []), s.stream⟩) hr hpos hsound c
      refine ⟨fun _ => onTime_of_dependable hr (hframes s) hpos hsound, ?_⟩
      refine ih (perform_position_nonneg hoffset c hpos) ?_
      rw [← hperform]
      exact hsound'

end

/-- Under exact times, an utterance is longer than its trailing silence if and only if its best path
has emitted a token. A rule that asks for speech never fires before. -/
theorem speech_iff_emitted (r : Recognizer σ ℝ) (hm : r.method.Steady r.model.toNetwork)
    (hshift : 0 < r.frameShift) {st : Stream ℝ} (hst : r.newStream = .ok st) (network : σ)
    (calls : List (Call ℝ)) (hcalls : OnTimeRun r ⟨network, st⟩ calls) :
    let st := (calls.foldl (Call.perform r) ⟨network, st⟩).stream
    let tokens := (r.method.strip r.model.toNetwork st.search).tokens
    ∃ length silence, timeOf st.processed r.frameShift = .ok length ∧
      timeOf (st.search.trailingBlanks * subsampling) r.frameShift = .ok silence ∧
      (∀ rules ∈ r.endpoints, r.isEndpoint st = .ok (rules.fired? silence length).isSome) ∧
      (silence < length ↔ tokens ≠ []) ∧
      ∀ rule : EndpointRule ℝ, rule.mustContainSpeech = true → tokens = [] →
        rule.fires silence length = false := by
  intro st tokens
  have h : InTime r st :=
    perform_all_inTime hm calls hcalls (inTime_newStream hm hst)
  have hemitted : ((st.search.trailingBlanks * subsampling : Int) : ℝ) * r.frameShift <
      (st.processed : ℝ) * r.frameShift ↔ tokens ≠ [] := by
    rw [mul_lt_mul_iff_left₀ hshift, Int.cast_lt]
    exact h.silence_lt_processed_iff
  refine ⟨_, _, timeOf_eq_ok _ _, timeOf_eq_ok _ _, ?_, hemitted, ?_⟩
  · intro rules hrules
    rw [Recognizer.isEndpoint, Option.mem_def.mp hrules]
    rfl
  · intro rule hspeech htokens
    have hnot := mt hemitted.mp (not_not_intro htokens)
    rw [EndpointRule.fires, hspeech, decide_eq_false hnot]
    rfl

/-- A recognizer that hears the same letter everywhere, one for four frames, and counts the time
exactly. -/
noncomputable def steadily : Recognizer Unit ℝ where
  model :=
    { contextSize := 2
      predict := fun rows => pure (rows.map fun _ => [0])
      join := fun _ rows => pure (rows.map fun _ => [0, 1])
      segment := 8
      offset := 4
      initialStates := .ok []
      encode := fun _ states => pure (.array { shape := [1, 1, 1], data := #[0] }, states) }
  symbols := { entries := [(1, "a")] }
  frontEnd :=
    { rate := 16000
      bins := 80
      window := 1
      shift := 1
      check := .ok ()
      frame := id
      converter := fun _ => .error .zeroShift
      sample := fun n => n / 32768 }
  method := .beam ⟨2, .logSumExp⟩
  endpoints := some (.ofThresholds 2.4 1.2 20)
  frameShift := 0.01

theorem steadily_dependable : steadily.Dependable 2 where
  layout := rfl
  check := rfl
  segment := by decide
  room := rfl
  states := ⟨[], rfl⟩
  networks :=
    { contextSize := by decide
      vocabulary_pos := by decide
      vocabulary_le := by decide
      predict := fun rows _ => ⟨_, _, rfl, List.length_map _⟩
      join := fun _ rows _ => ⟨_, _, rfl, List.length_map _, by simp⟩ }
  encode := fun _ states _ => ⟨_, _, rfl, _, rfl⟩
  symbols := fun t ht => by
    have hpos := ht.nonneg
    have hlt := ht.lt
    obtain rfl | rfl : t = 0 ∨ t = 1 := by omega
    · exact absurd ht.isEmission (by decide)
    · exact ⟨_, rfl⟩
  graph := fun g hg => by cases hg

theorem speech_iff_emitted_restarted :
    let r := steadily
    let silence : Argument ℝ := .array (Tensor.filled .float32 [28] 0)
    let calls : List (Call ℝ) :=
      [.accept 16000 silence, .decode, .isEndpoint, .transcript, .restart, .decode, .decode]
    ∃ st, r.newStream = .ok st ∧ OnTimeRun r ⟨(), st⟩ calls ∧
      let st := (calls.foldl (Call.perform r) ⟨(), st⟩).stream
      ∃ length pause, timeOf st.processed r.frameShift = .ok length ∧
        timeOf (st.search.trailingBlanks * subsampling) r.frameShift = .ok pause ∧
        (pause < length ↔ (r.method.strip r.model.toNetwork st.search).tokens ≠ []) := by
  intro r silence calls
  have hframes (s : Session Unit ℝ) (features : Tensor ℝ) (frames : List (List ℝ))
      (h : r.encoded s features = .ok frames) : subsampling * frames.length = r.model.offset := by
    obtain rfl : [[0]] = frames := Except.ok.inj h
    rfl
  have hm : r.method.Steady r.model.toNetwork := by
    refine ⟨by decide, fun rows network out network' _ h => ?_, fun _ rows network out _ h => ?_⟩
    · cases h
      exact List.length_map _
    · cases h
      exact List.length_map _
  have hshift : 0 < r.frameShift := by
    change (0 : ℝ) < 0.01
    norm_num
  obtain ⟨st, hst, hsound⟩ := Conversation.newStream_eq_ok steadily_dependable
  have hpos : 0 ≤ st.position := (Conversation.attending_newStream hst).position
  have hcalls : OnTimeRun r ⟨(), st⟩ calls :=
    onTimeRun_of_dependable steadily_dependable (by decide) hframes hpos hsound calls
  obtain ⟨length, pause, hlength, hpause, -, hspeech, -⟩ :=
    speech_iff_emitted r hm hshift hst () calls hcalls
  exact ⟨st, hst, hcalls, length, pause, hlength, hpause, hspeech⟩

end SpeechTransducer
