import SpeechTransducer.Proofs.Recognizer.Growth
import SpeechTransducer.Proofs.Recognizer.Watching

/-!
What the encoder is given over the life of a stream. A window is followed by the one an offset
further on, whatever is called in between. A new utterance starts at that window too, so that none
is read twice or left out.
-/

namespace SpeechTransducer

variable {σ S : Type}

open Audio (FeatureConfig)

theorem leftBehind_withExtractor (st : Stream S)
    (result : EStateM.Result Fault (Audio.Extractor S) Unit) :
    leftBehind (st.withExtractor result) = { st with extractor := leftBehind result } := by
  cases result <;> rfl

/-- A transcript leaves the stream as it is, or closes the utterance. -/
theorem leftBehind_transcript [BEq S] [LT S] [DecidableLT S] [LE S] [DecidableLE S] [Countable S]
    [HMul Int S S] (r : Recognizer σ S) (st : Stream S) :
    leftBehind (r.transcript st) = st ∨ leftBehind (r.transcript st) = st.finalize := by
  rw [Recognizer.transcript]
  split
  · exact .inl rfl
  · rename_i isOver _
    dsimp only
    cases isOver with
    | false => split <;> exact .inl rfl
    | true => split <;> exact .inr rfl

theorem decode_of_not_ready [Zero S] [Add S] [Sub S] [BEq S] [LT S] [DecidableLT S] [LogScale S]
    {r : Recognizer σ S} {s : Session σ S} (h : r.isReady s.stream = false) :
    r.decode s = .error (.streamNotReady s.stream.processed s.stream.ready r.model.segment) s := by
  rw [Recognizer.decode, h]
  rfl

theorem isReady_restart [Zero S] [Add S] [Sub S] [LT S] [DecidableLT S] [LogScale S]
    (r : Recognizer σ S) (st : Stream S) : r.isReady (r.restart st) = r.isReady st := by
  have hposition : (r.restart st).position = st.position := Int.add_zero _
  rw [Bool.eq_iff_iff, Conversation.isReady_iff, Conversation.isReady_iff, hposition]
  rfl

/-- The states that a call of the encoder is given: the first ones, or those of the answer
before. -/
def statesBefore (initial : List (Tensor S)) (record : List (Reading S)) :
    Nat → Option (List (Tensor S))
  | 0 => some initial
  | i + 1 => record[i]?.bind Reading.next

theorem statesBefore_append (initial : List (Tensor S)) {record : List (Reading S)} {i : Nat}
    (h : i ≤ record.length) (more : List (Reading S)) :
    statesBefore initial (record ++ more) i = statesBefore initial record i := by
  cases i with
  | zero => rfl
  | succ i => rw [statesBefore, statesBefore, List.getElem?_append_left h]

section

variable [Zero S]

/-- A reading at its place in the order: the frames of its window, and the states of the answer
before. -/
structure Reading.InPlace (r : Recognizer σ S) (initial : List (Tensor S)) (x : Audio.Extractor S)
    (record : List (Reading S)) (i : Nat) (reading : Reading S) : Prop where
  inside : i * r.model.offset + r.model.segment < x.ready
  features : reading.features = x.window r.frontEnd (i * r.model.offset) r.model.segment
  states : statesBefore initial record i = some reading.states

/-- What has been read of a stream is one window after another. -/
structure Following (r : Recognizer σ S) (initial : List (Tensor S))
    (s : Session (σ × List (Reading S)) S) : Prop where
  position : s.stream.position = s.network.2.length * r.model.offset
  states : statesBefore initial s.network.2 s.network.2.length = some s.stream.encoderStates
  readings : ∀ (i : Nat) (reading : Reading S), s.network.2[i]? = some reading →
    reading.InPlace r initial s.stream.extractor s.network.2 i
  frames : s.stream.extractor.frames = [] ∨ r.frontEnd.check = .ok ()

variable {r : Recognizer σ S} {initial : List (Tensor S)} {s : Session (σ × List (Reading S)) S}

/-- Calls that only add frames, and leave the position and the states as they are. -/
theorem Following.grow (h : Following r initial s) (hoffset : 0 ≤ r.model.offset)
    (hsegment : 0 ≤ r.model.segment) {st : Stream S}
    (hframes : Audio.Extractor.Grows r.frontEnd s.stream.extractor.frames st.extractor.frames)
    (hposition : st.position = s.stream.position)
    (hstates : st.encoderStates = s.stream.encoderStates) :
    Following r initial { s with stream := st } := by
  refine ⟨hposition.trans h.position, hstates ▸ h.states, fun i reading hi => ?_, ?_⟩
  · have hreading := h.readings i reading hi
    have hindex : 0 ≤ i * r.model.offset := Int.mul_nonneg (Int.natCast_nonneg i) hoffset
    refine ⟨?_, ?_, hreading.states⟩
    · exact Int.lt_of_lt_of_le hreading.inside (Int.ofNat_le.mpr hframes.prefixed.length_le)
    · rw [Audio.Extractor.window_of_prefix hframes.prefixed hindex hsegment hreading.inside.le]
      exact hreading.features
  · obtain hsame | hcheck := hframes.check
    · rw [hsame]
      exact h.frames
    · exact .inr hcheck

/-- What the encoder is given next is at its place. -/
theorem Following.asked (h : Following r initial s) {reading : Reading S}
    (hready : r.isReady s.stream = true)
    (hfeatures : reading.features = s.stream.extractor.window r.frontEnd
      (s.network.2.length * r.model.offset) r.model.segment)
    (hstates : reading.states = s.stream.encoderStates) :
    reading.InPlace r initial s.stream.extractor (s.network.2 ++ [reading]) s.network.2.length := by
  rw [Conversation.isReady_iff, h.position] at hready
  refine ⟨hready, hfeatures, ?_⟩
  rw [statesBefore_append initial le_rfl, h.states, hstates]

theorem Following.check (h : Following r initial s) (hpos : 0 < s.stream.extractor.ready) :
    r.frontEnd.check = .ok () := by
  obtain hnil | hcheck := h.frames
  · rw [Audio.Extractor.ready, hnil] at hpos
    exact absurd hpos (Nat.lt_irrefl 0)
  · exact hcheck

section

variable (hbins : r.frontEnd.HasBins) (hsegment : 0 ≤ r.model.segment)
variable (hoffset : 0 ≤ r.model.offset)

include hbins hsegment hoffset

/-- The next window can be read as soon as the stream is ready. -/
theorem Following.frames_eq_window (h : Following r initial s)
    (hready : r.isReady s.stream = true) :
    s.stream.frames r.frontEnd s.stream.processed r.model.segment =
      .ok (s.stream.extractor.window r.frontEnd (s.network.2.length * r.model.offset)
        r.model.segment) := by
  rw [Conversation.isReady_iff, h.position] at hready
  have hindex : 0 ≤ s.network.2.length * r.model.offset :=
    Int.mul_nonneg (Int.natCast_nonneg _) hoffset
  have hcheck : r.frontEnd.check = .ok () := h.check (by omega)
  rw [← Audio.Extractor.get_eq_window hbins hcheck hindex hsegment hready.le, ← h.position]
  rfl

end

end

variable [Zero S] [Add S] [Sub S] [LT S] [DecidableLT S] [LogScale S]
variable {r : Recognizer σ S} {initial : List (Tensor S)} {s : Session (σ × List (Reading S)) S}

theorem following_newStream {st : Stream S} (h : r.newStream = .ok st) (network : σ) :
    r.model.initialStates = .ok st.encoderStates ∧
      Following r st.encoderStates ⟨(network, []), st⟩ := by
  obtain ⟨_, -, h⟩ := bind_inv h
  obtain ⟨_, -, h⟩ := bind_inv h
  obtain ⟨states, hstates, h⟩ := bind_inv h
  obtain rfl := Except.ok.inj h
  refine ⟨hstates, ?_, rfl, ?_, .inl rfl⟩
  · exact (Int.zero_mul _).symm
  · intro i reading hi
    cases hi

variable [BEq S]

theorem Following.decoded (h : Following r initial s) {s' : Session σ S} {reading : Reading S}
    (hdecode : r.decode s.unwatched = .ok () s')
    (hplace : reading.InPlace r initial s.stream.extractor (s.network.2 ++ [reading])
      s.network.2.length)
    (hnext : reading.next = some s'.stream.encoderStates) :
    Following r initial ⟨(s'.network, s.network.2 ++ [reading]), s'.stream⟩ := by
  obtain ⟨search, states, hst⟩ := Conversation.decode_inv hdecode
  have hextractor : s'.stream.extractor = s.stream.extractor := hst ▸ rfl
  have hposition : s'.stream.position = s.stream.position + r.model.offset := by
    rw [hst]
    exact (Int.add_assoc _ _ _).symm
  refine ⟨?_, ?_, fun i found hi => ?_, hextractor ▸ h.frames⟩
  · rw [hposition, h.position, List.length_append, List.length_singleton, Int.natCast_add,
      Int.natCast_one, Int.add_mul, Int.one_mul]
  · rw [List.length_append, List.length_singleton, statesBefore, List.getElem?_concat_length]
    exact hnext
  · dsimp only at hi ⊢
    rw [hextractor]
    -- The states before an entry do not depend on the entries behind it.
    obtain hlt | hge := Nat.lt_or_ge i s.network.2.length
    · rw [List.getElem?_append_left hlt] at hi
      have hfound := h.readings i found hi
      refine ⟨hfound.inside, hfound.features, ?_⟩
      rw [statesBefore_append initial hlt.le]
      exact hfound.states
    · obtain ⟨hlt, hentry⟩ := List.getElem?_eq_some_iff.mp hi
      rw [List.length_append, List.length_singleton] at hlt
      obtain rfl : i = s.network.2.length := by omega
      rw [List.getElem_concat_length rfl] at hentry
      exact hentry ▸ hplace

/-- A decoding that fails has not asked the encoder. -/
def Unfailing (r : Recognizer σ S) (s : Session (σ × List (Reading S)) S) : Prop :=
  ∀ f s', r.watched.decode s = .error f s' → s'.network.2 = s.network.2

/-- A recognizer that has all it needs does not fail once the encoder has been asked. -/
theorem unfailing_of_dependable [Countable S] {vocabulary : Nat} (hr : r.Dependable vocabulary)
    (hpos : 0 ≤ s.stream.position)
    (hsound : r.method.Sound r.model.toNetwork vocabulary r.graph s.stream.search) :
    Unfailing r s ∧ r.method.Sound r.model.toNetwork vocabulary r.graph
      (leftBehind (r.watched.decode s)).stream.search := by
  cases hready : r.isReady s.stream with
  | false =>
      have hfail := decode_of_not_ready (r := r) (s := s.unwatched) hready
      rw [Unfailing, watched_decode_of_not_ready hready, hfail]
      refine ⟨fun f s' hs' => ?_, hsound⟩
      cases hs'
      rfl
  | true =>
      obtain ⟨_, s', hdecode, hsound'⟩ :=
        Conversation.decode_yields (s := s.unwatched) hr hpos hready hsound
      obtain ⟨record, hwatched⟩ := watched_decode (r := r) s
      rw [Unfailing, hwatched, hdecode]
      refine ⟨fun f s'' hs'' => ?_, hsound'⟩
      cases hs''

/-- The number of windows that a call decodes. -/
def Call.decoded (r : Recognizer σ S) (s : Session σ S) : Call S → Nat
  | .decode =>
    match r.decode s with
    | .ok _ _ => 1
    | .error _ _ => 0
  | _ => 0

section

variable [LE S] [DecidableLE S] [Countable S] [HMul Int S S]

/-- In a run every decoding that fails has not asked the encoder. -/
def UnfailingRun (r : Recognizer σ S) : Session (σ × List (Reading S)) S → List (Call S) → Prop
  | _, [] => True
  | s, c :: calls => (c = .decode → Unfailing r s) ∧ UnfailingRun r (c.perform r.watched s) calls

/-- The number of windows that a run decodes. -/
def decodedIn (r : Recognizer σ S) : Session σ S → List (Call S) → Nat
  | _, [] => 0
  | s, c :: calls => c.decoded r s + decodedIn r (c.perform r s) calls

theorem perform_sound {vocabulary : Nat} (hr : r.Dependable vocabulary)
    (hpos : 0 ≤ s.stream.position)
    (hsound : r.method.Sound r.model.toNetwork vocabulary r.graph s.stream.search)
    (call : Call S) :
    r.method.Sound r.model.toNetwork vocabulary r.graph
      (call.perform r.watched s).stream.search := by
  cases call with
  | accept rate samples =>
      rw [Call.perform, Stream.accept]
      exact (search_withExtractor s.stream _).symm ▸ hsound
  | finish =>
      rw [Call.perform, Stream.finish]
      exact (search_withExtractor s.stream _).symm ▸ hsound
  | decode => exact (unfailing_of_dependable hr hpos hsound).2
  | isEndpoint => exact hsound
  | transcript =>
      rw [Call.perform]
      exact (search_transcript s.stream).symm ▸ hsound
  | restart =>
      rw [Call.perform, watched_restart]
      exact Conversation.sound_restart hr.graph hsound

end

variable (hbins : r.frontEnd.HasBins) (hsegment : 0 ≤ r.model.segment)
variable (hoffset : 0 ≤ r.model.offset)

include hbins hsegment hoffset

theorem Following.decode (h : Following r initial s) (hs : Unfailing r s) :
    Following r initial (leftBehind (r.watched.decode s)) ∧
      (leftBehind (r.watched.decode s)).network.2.length =
        s.network.2.length + Call.decode.decoded r s.unwatched := by
  cases hready : r.isReady s.stream with
  | false =>
      have hfail := decode_of_not_ready (r := r) (s := s.unwatched) hready
      rw [watched_decode_of_not_ready hready, Call.decoded, hfail]
      exact ⟨h, rfl⟩
  | true =>
      obtain ⟨next, hdecode, hnext⟩ := watched_decode_of_ready hready
        (h.frames_eq_window hbins hsegment hoffset hready)
      rw [hdecode, Call.decoded]
      cases hplain : r.decode s.unwatched with
      | ok _ s' =>
          exact ⟨h.decoded hplain (h.asked hready rfl rfl) (hnext s' hplain), List.length_append⟩
      | error f s' =>
          rw [hplain] at hdecode
          exact absurd (congrArg List.length (hs f _ hdecode)) (by simp)

variable [LE S] [DecidableLE S] [Countable S] [HMul Int S S]

theorem Following.perform (h : Following r initial s) (call : Call S)
    (hs : call = .decode → Unfailing r s) :
    Following r initial (call.perform r.watched s) ∧
      (call.perform r.watched s).network.2.length =
        s.network.2.length + call.decoded r s.unwatched := by
  cases call with
  | accept rate samples =>
      refine ⟨?_, rfl⟩
      rw [Call.perform, Stream.accept, leftBehind_withExtractor]
      exact h.grow hoffset hsegment (Audio.Extractor.accept_grows rate samples _) rfl rfl
  | finish =>
      refine ⟨?_, rfl⟩
      rw [Call.perform, Stream.finish, leftBehind_withExtractor]
      exact h.grow hoffset hsegment (Audio.Extractor.finish_grows _) rfl rfl
  | decode => exact h.decode hbins hsegment hoffset (hs rfl)
  | isEndpoint => exact ⟨h, rfl⟩
  | transcript =>
      refine ⟨?_, rfl⟩
      rw [Call.perform]
      obtain hsame | hfinal := leftBehind_transcript r.watched s.stream
      · rw [hsame]
        exact h
      · rw [hfinal]
        exact h.grow hoffset hsegment (.refl _ _) rfl rfl
  | restart =>
      refine ⟨h.grow hoffset hsegment (.refl _ _) ?_ rfl, rfl⟩
      exact Int.add_zero _

theorem Following.run (h : Following r initial s) (calls : List (Call S))
    (hcalls : UnfailingRun r s calls) :
    Following r initial (calls.foldl (Call.perform r.watched) s) ∧
      (calls.foldl (Call.perform r.watched) s).network.2.length =
        s.network.2.length + decodedIn r s.unwatched calls := by
  induction calls generalizing s with
  | nil => exact ⟨h, rfl⟩
  | cons call calls ih =>
      obtain ⟨hnext, hlength⟩ := h.perform hbins hsegment hoffset call hcalls.1
      obtain ⟨hrun, hlengths⟩ := ih hnext hcalls.2
      refine ⟨hrun, ?_⟩
      rw [List.foldl_cons, hlengths, hlength, unwatched_perform, decodedIn, Nat.add_assoc]

theorem Following.unfailingRun {vocabulary : Nat} (h : Following r initial s)
    (hr : r.Dependable vocabulary)
    (hsound : r.method.Sound r.model.toNetwork vocabulary r.graph s.stream.search)
    (calls : List (Call S)) : UnfailingRun r s calls := by
  induction calls generalizing s with
  | nil => trivial
  | cons call calls ih =>
      have hpos : 0 ≤ s.stream.position := by
        rw [h.position]
        exact Int.mul_nonneg (Int.natCast_nonneg _) hoffset
      have hs : call = .decode → Unfailing r s :=
        fun _ => (unfailing_of_dependable hr hpos hsound).1
      exact ⟨hs, ih (h.perform hbins hsegment hoffset call hs).1
        (perform_sound hr hpos hsound call)⟩

omit hbins hsegment hoffset

/-- The encoder is given every window of a stream once and in order, with the states that it
answered with before. This holds for any calls, as long as no decoding fails once the encoder has
been asked. The next decoding asks the encoder for the next window, if the stream has frames behind
it, and waits for them otherwise; a new utterance makes no difference. -/
theorem perform_all_inPlace (r : Recognizer σ S) (hbins : r.frontEnd.HasBins)
    (hsegment : 0 ≤ r.model.segment) (hoffset : 0 ≤ r.model.offset) {st : Stream S}
    (hst : r.newStream = .ok st) (network : σ) (calls : List (Call S))
    (hcalls : UnfailingRun r ⟨(network, []), st⟩ calls) :
    let s := calls.foldl (Call.perform r.watched) ⟨(network, []), st⟩
    let record := s.network.2
    let x := s.stream.extractor
    let index := record.length * r.model.offset
    s.unwatched = calls.foldl (Call.perform r) ⟨network, st⟩ ∧
      record.length = decodedIn r ⟨network, st⟩ calls ∧
      (∃ initial, r.model.initialStates = .ok initial ∧
        (∀ (i : Nat) (reading : Reading S), record[i]? = some reading →
          reading.InPlace r initial x record i) ∧
        (index + r.model.segment < x.ready → ∃ reading : Reading S,
          s.stream.frames r.frontEnd s.stream.processed r.model.segment = .ok reading.features ∧
          (leftBehind (r.watched.decode s)).network.2 = record ++ [reading] ∧
          reading.InPlace r initial x (record ++ [reading]) record.length)) ∧
      (x.ready ≤ index + r.model.segment → r.decode s.unwatched =
        .error (.streamNotReady s.stream.processed s.stream.ready r.model.segment) s.unwatched) ∧
      r.isReady (r.restart s.stream) = r.isReady s.stream := by
  intro s record x index
  obtain ⟨hinitial, hstart⟩ := following_newStream hst network
  obtain ⟨h, hlength⟩ := hstart.run hbins hsegment hoffset calls hcalls
  have hready : r.isReady s.stream = true ↔ index + r.model.segment < x.ready := by
    rw [Conversation.isReady_iff, h.position]
  refine ⟨unwatched_perform_all calls, hlength.trans (Nat.zero_add _),
    ⟨_, hinitial, h.readings, fun hin => ?_⟩, fun hout => ?_, isReady_restart r s.stream⟩
  · have hframes := h.frames_eq_window hbins hsegment hoffset (hready.mpr hin)
    obtain ⟨next, hdecode, -⟩ := watched_decode_of_ready (hready.mpr hin) hframes
    refine ⟨⟨_, s.stream.encoderStates, next⟩, hframes, ?_, h.asked (hready.mpr hin) rfl rfl⟩
    rw [hdecode, leftBehind_recorded]
    rfl
  · exact decode_of_not_ready (Bool.eq_false_iff.mpr (mt hready.mp (Int.not_lt.mpr hout)))

theorem perform_all_inPlace_restarted :
    let r := Conversation.steady
    let silence : Argument Float := .array (Tensor.filled .float32 [16000] 0)
    let calls : List (Call Float) :=
      [.decode, .accept 16000 silence, .decode, .transcript, .restart, .decode, .finish, .decode]
    ∃ st, r.newStream = .ok st ∧ UnfailingRun r ⟨((), []), st⟩ calls ∧
      let s := calls.foldl (Call.perform r.watched) ⟨((), []), st⟩
      s.network.2.length = decodedIn r ⟨(), st⟩ calls ∧
      ∃ initial, r.model.initialStates = .ok initial ∧
        ∀ (i : Nat) (reading : Reading Float), s.network.2[i]? = some reading →
          reading.InPlace r initial s.stream.extractor s.network.2 i := by
  intro r silence calls
  obtain ⟨st, hst, hsound⟩ := Conversation.newStream_eq_ok Conversation.steady_dependable
  have hbins : r.frontEnd.HasBins := fun _ => ⟨by decide, by decide⟩
  have hrun : UnfailingRun r ⟨((), []), st⟩ calls :=
    (following_newStream hst ()).2.unfailingRun hbins (by decide) (by decide)
      Conversation.steady_dependable hsound calls
  obtain ⟨-, hlength, ⟨initial, hinitial, hreadings, -⟩, -⟩ :=
    perform_all_inPlace r hbins (by decide) (by decide) hst () calls hrun
  exact ⟨st, hst, hrun, hlength, initial, hinitial, hreadings⟩

end SpeechTransducer
