import SpeechTransducer.Proofs.Conversation.Draining
import SpeechTransducer.Proofs.Search.Chunks
import SpeechTransducer.Proofs.Search.Greedy

/-!
Recognizers that have all they need. Their networks always answer, their symbol table has all the
tokens that the networks can choose, and the front end and the first states are there. Every pass
over a window then goes through, but for an utterance so long that its time is no score any more.
-/

namespace SpeechTransducer

open Search (Yields)

/-- A search between two chunks, of either method. -/
def Search.Method.Sound {σ S : Type} (m : Search.Method) (net : Search.Network σ S)
    (vocabulary : Nat) (graph : Option (Hotword.Graph S)) (st : Search.State S) : Prop :=
  match m with
  | .greedy => Search.Greedy.Sound net vocabulary st
  | .beam _ => Search.Beam.Sound net vocabulary graph st

structure Recognizer.Dependable {σ S : Type} [Zero S] [Add S] [LT S] [DecidableLT S] [Countable S]
    (r : Recognizer σ S) (vocabulary : Nat) : Prop where
  layout : r.frontEnd.layout = .ok ()
  check : r.frontEnd.check = .ok ()
  segment : 1 ≤ r.model.segment
  room : r.model.roomForContext = .ok ()
  states : ∃ states, r.model.initialStates = .ok states
  networks : r.model.toNetwork.Answering vocabulary
  encode : ∀ features states network, Yields (r.model.encode features states) network fun out _ =>
    ∃ frames, Search.encoderFrames out.1 = .ok frames
  symbols : ∀ t, Search.Emitted vocabulary t → ∃ text, r.symbols.text t = .ok text
  graph : Search.Beam.Anchored r.graph

namespace Conversation

variable {σ S : Type} {r : Recognizer σ S} {vocabulary : Nat}

/-- A window that is there can be read. -/
theorem get_eq_ok [Zero S] (fe : Audio.FrontEnd S) {x : Audio.Extractor S} {index n : Int}
    (hindex : 0 ≤ index) (hn : 1 ≤ n) (hin : index + n ≤ x.ready) :
    ∃ features, x.get fe index n = .ok features := by
  have hslice : slice index (index + n) x.frames ≠ [] := by
    intro hnil
    have hlen := congrArg List.length hnil
    simp only [Audio.Extractor.ready] at hin
    rw [slice, List.length_take, List.length_drop, resolvePosition, resolvePosition,
      if_neg (by omega), if_neg (by omega), List.length_nil] at hlen
    omega
  rw [Audio.Extractor.get, if_neg (by omega), if_neg (by omega)]
  split
  · exact absurd ‹_› hslice
  · exact ⟨_, rfl⟩

theorem isEndpoint_of_error [LT S] [DecidableLT S] [LE S] [DecidableLE S]
    [Countable S] {st : Stream S} {f : Fault}
    (h : r.isEndpoint st = .error f) : r.endpoints ≠ none ∧ f = .timeTooLarge := by
  have htime {n : Int} {f : Fault} (h : timeOf n r.frameShift = .error f) : f = .timeTooLarge := by
    rw [timeOf] at h
    split at h
    · cases h
    · cases h
      rfl
  rw [Recognizer.isEndpoint] at h
  cases hendpoints : r.endpoints with
  | none =>
      rw [hendpoints] at h
      cases h
  | some rules =>
      rw [hendpoints] at h
      refine ⟨by simp, ?_⟩
      dsimp only at h
      rw [EndpointConfig.isEndpoint] at h
      cases hlength : timeOf st.processed r.frameShift with
      | error f' =>
          rw [hlength] at h
          cases h
          exact htime hlength
      | ok length =>
          cases hsilence : timeOf (st.search.trailingBlanks * subsampling) r.frameShift with
          | error f' =>
              rw [hlength, hsilence] at h
              cases h
              exact htime hsilence
          | ok silence =>
              rw [hlength, hsilence] at h
              cases h

section

variable [Zero S] [Add S] [LT S] [DecidableLT S] [Countable S]

theorem emitted_strip [BEq S] (h : r.Dependable vocabulary) {search : Search.State S}
    (hsound : r.method.Sound r.model.toNetwork vocabulary r.graph search) :
    ∀ t ∈ (r.method.strip r.model.toNetwork search).tokens, Search.Emitted vocabulary t := by
  have hsize : 0 ≤ r.model.contextSize := Int.le_trans (by decide) h.networks.contextSize
  cases hmethod : r.method with
  | greedy =>
      rw [hmethod] at hsound
      exact hsound.tokens.sliceFrom hsize
  | beam b =>
      rw [hmethod] at hsound
      exact Search.Beam.emitted_strip hsize hsound

theorem currentTranscript_eq_ok [BEq S] [HMul Int S S] (h : r.Dependable vocabulary) {st : Stream S}
    (hsound : r.method.Sound r.model.toNetwork vocabulary r.graph st.search) :
    ∃ t, r.currentTranscript st = .ok t := by
  have htexts : ∀ t ∈ (r.method.strip r.model.toNetwork st.search).tokens,
      ∃ text, r.symbols.text t = .ok text ∧ True := by
    intro t ht
    obtain ⟨text, htext⟩ := h.symbols t (emitted_strip h hsound t ht)
    exact ⟨text, htext, trivial⟩
  obtain ⟨symbols, hsymbols, -⟩ := mapM_eq_ok htexts
  rw [Recognizer.currentTranscript, hsymbols]
  exact ⟨_, rfl⟩

theorem transcript_eq_ok [BEq S] [LE S] [DecidableLE S] [HMul Int S S] (h : r.Dependable vocabulary)
    {st : Stream S} {isOver : Bool} (hover : r.isEndpoint st = .ok isOver)
    (hsound : r.method.Sound r.model.toNetwork vocabulary r.graph st.search) :
    ∃ t st', r.transcript st = .ok t st' ∧ st'.search = st.search := by
  rw [Recognizer.transcript, hover]
  cases isOver with
  | false =>
      obtain ⟨t, ht⟩ := currentTranscript_eq_ok h hsound
      exact ⟨t, st, by simp [ht], rfl⟩
  | true =>
      have hsound' : r.method.Sound r.model.toNetwork vocabulary r.graph st.finalize.search :=
        hsound
      obtain ⟨t, ht⟩ := currentTranscript_eq_ok h hsound'
      exact ⟨t, st.finalize, by simp [ht], rfl⟩

end

section

variable [Zero S] [Add S] [Sub S] [LT S] [DecidableLT S] [LogScale S]

theorem sound_freshSearch (hgraph : Search.Beam.Anchored r.graph) :
    r.method.Sound r.model.toNetwork vocabulary r.graph r.freshSearch := by
  rw [Recognizer.freshSearch]
  cases r.method with
  | greedy =>
      have h : Search.Greedy.Sound r.model.toNetwork vocabulary
          (Search.Greedy.start r.model.toNetwork : Search.State S) := Search.Greedy.sound_start
      cases r.graph with
      | none => exact h
      | some g => exact ⟨h.tokens, h.prediction⟩
  | beam b => exact Search.Beam.sound_start hgraph r.graph

theorem sound_restart (hgraph : Search.Beam.Anchored r.graph) {st : Stream S}
    (hsound : r.method.Sound r.model.toNetwork vocabulary r.graph st.search) :
    r.method.Sound r.model.toNetwork vocabulary r.graph (r.restart st).search := by
  have hfresh : r.method.Sound r.model.toNetwork vocabulary r.graph r.freshSearch :=
    sound_freshSearch hgraph
  have hprediction : ∀ rows ∈ st.search.prediction, rows.length = 1 := by
    revert hsound
    cases r.method with
    | greedy => exact fun hsound => hsound.prediction
    | beam b => exact fun hsound => hsound.prediction
  change r.method.Sound r.model.toNetwork vocabulary r.graph
    { r.freshSearch with prediction := st.search.prediction }
  revert hfresh
  generalize r.freshSearch = fresh
  cases r.method with
  | greedy => exact fun hfresh => ⟨hfresh.tokens, hprediction⟩
  | beam b => exact fun hfresh => ⟨hfresh.tokens, hfresh.paths, hprediction⟩

theorem newStream_eq_ok [Countable S] (h : r.Dependable vocabulary) :
    ∃ st, r.newStream = .ok st ∧
      r.method.Sound r.model.toNetwork vocabulary r.graph st.search := by
  obtain ⟨states, hstates⟩ := h.states
  rw [Recognizer.newStream, h.layout, h.room, hstates]
  exact ⟨_, rfl, sound_freshSearch h.graph⟩

variable [BEq S] [Countable S]

theorem decode_yields (h : r.Dependable vocabulary) {s : Session σ S}
    (hpos : 0 ≤ s.stream.position) (hready : r.isReady s.stream = true)
    (hsound : r.method.Sound r.model.toNetwork vocabulary r.graph s.stream.search) :
    Yields r.decode s fun _ s' =>
      r.method.Sound r.model.toNetwork vocabulary r.graph s'.stream.search := by
  have hin := (isReady_iff r s.stream).mp hready
  obtain ⟨features, hfeatures⟩ :=
    get_eq_ok r.frontEnd hpos h.segment (Int.le_of_lt hin)
  obtain ⟨⟨out, states⟩, network, hencode, frames, hframes⟩ :=
    h.encode features s.stream.encoderStates s.network
  have hsearch : Yields (r.method.decode r.model.toNetwork r.graph out)
      ⟨network, s.stream.search⟩ fun _ found =>
        r.method.Sound r.model.toNetwork vocabulary r.graph found.state := by
    cases hmethod : r.method with
    | greedy =>
        rw [hmethod] at hsound
        exact Search.Greedy.decode_yields h.networks hframes hsound
    | beam b =>
        rw [hmethod] at hsound
        exact Search.Beam.decode_yields h.networks h.graph b hframes hsound
  obtain ⟨_, found, hfound, hafter⟩ := hsearch
  refine ⟨(), ⟨found.network, { s.stream with
    processed := s.stream.processed + r.model.offset
    search := found.state
    encoderStates := states }⟩, ?_, hafter⟩
  have hread : s.stream.frames r.frontEnd s.stream.processed r.model.segment = .ok features :=
    hfeatures
  rw [Recognizer.decode]
  simp only [hready, Bool.not_true, Bool.false_eq_true, if_false, hread, hencode, hfound]

/-- A step leaves a search that can go on, unless an utterance is too long to be timed. -/
def Lasting {α : Type} (r : Recognizer σ S) (vocabulary : Nat) :
    Except (Fault × σ) (α × Session σ S) → Prop
  | .ok p => r.method.Sound r.model.toNetwork vocabulary r.graph p.2.stream.search
  | .error e => r.endpoints ≠ none ∧ e.1 = .timeTooLarge

variable [LE S] [DecidableLE S] [HMul Int S S]

theorem pass_lasting (h : r.Dependable vocabulary) {s : Session σ S}
    (hpos : 0 ≤ s.stream.position) (hready : r.isReady s.stream = true)
    (hsound : r.method.Sound r.model.toNetwork vocabulary r.graph s.stream.search) :
    Lasting r vocabulary (pass r s) := by
  obtain ⟨_, s', hdecode, hsound'⟩ := decode_yields h hpos hready hsound
  rw [pass, hdecode]
  dsimp only
  cases hover : r.isEndpoint s'.stream with
  | error f => exact isEndpoint_of_error hover
  | ok isOver =>
      obtain ⟨t, st, htranscript, hsearch⟩ := transcript_eq_ok h hover hsound'
      rw [← hsearch] at hsound'
      rw [htranscript]
      cases isOver with
      | false => exact hsound'
      | true => exact sound_restart h.graph hsound'

theorem drain_lasting (h : r.Dependable vocabulary) (hoffset : 1 ≤ r.model.offset)
    {s : Session σ S} (hpos : 0 ≤ s.stream.position)
    (hsound : r.method.Sound r.model.toNetwork vocabulary r.graph s.stream.search) :
    Lasting r vocabulary (drain r s) := by
  induction s using drain_induction hoffset with
  | waits s hready =>
      rw [drain_eq hoffset, hready]
      exact hsound
  | fails s e hready hpass =>
      have hlasting := pass_lasting h hpos hready hsound
      rw [drain_eq hoffset, hready, hpass]
      rw [hpass] at hlasting
      exact hlasting
  | goes_on s p hready hpass ih =>
      have hlasting := pass_lasting h hpos hready hsound
      rw [hpass] at hlasting
      have hposition := (pass_inv hpass).2
      have hrest := ih (by omega) hlasting
      rw [drain_eq hoffset, hready, hpass]
      change Lasting r vocabulary ((drain r p.2).map (after p.1))
      cases hdrain : drain r p.2 with
      | error e =>
          rw [hdrain] at hrest
          exact hrest
      | ok q =>
          rw [hdrain] at hrest
          exact hrest

end

end Conversation

end SpeechTransducer
