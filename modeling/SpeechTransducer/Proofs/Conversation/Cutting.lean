import SpeechTransducer.Proofs.Audio.Windows
import SpeechTransducer.Proofs.Conversation.Dependable

/-!
What the peer is told does not depend on how the audio is cut into messages. Two messages can be
joined: the byte left over between them, the samples before the next window and the frames before
the next pass are carried from one to the other. A recognizer that has all it needs goes through
all of them.
-/

namespace SpeechTransducer.Conversation

variable {σ S : Type}

/-- Whether an event tells something, and does not only ask for more. -/
def Event.isNews : Event S → Bool
  | .ready => false
  | _ => true

/-- What the peer is told. -/
def Said.told (said : Said σ S) : List (Event S) := said.events.filter Event.isNews

/-- How a conversation ends, and what the peer is told if it does not go wrong. -/
def Said.outcome (said : Said σ S) : Except (Fault × σ) (List (Event S) × σ) :=
  match said.fault with
  | some f => .error (f, said.network)
  | none => .ok (said.told, said.network)

theorem outcome_after (events : List (Event S)) (said : Said σ S) :
    (said.after (.ready :: events)).outcome =
      said.outcome.map fun p => (events.filter Event.isNews ++ p.1, p.2) := by
  obtain ⟨later, network, fault⟩ := said
  cases fault with
  | some f => rfl
  | none => simp [Said.outcome, Said.after, Said.told, Event.isNews, Except.map]

theorem of_outcome_eq {said said' : Said σ S} (h : said.outcome = said'.outcome) :
    said.fault = said'.fault ∧ said.network = said'.network ∧
      (said.fault = none → said.told = said'.told) := by
  rw [Said.outcome, Said.outcome] at h
  cases hfault : said.fault with
  | some f =>
      cases hfault' : said'.fault with
      | some f' => simpa [hfault, hfault'] using h
      | none => simp [hfault, hfault'] at h
  | none =>
      cases hfault' : said'.fault with
      | some f' => simp [hfault, hfault'] at h
      | none => simpa [hfault, hfault', and_comm] using h

theorem fault_eq_some_iff {said : Said σ S} {f : Fault} :
    said.fault = some f ↔ ∃ network, said.outcome = .error (f, network) := by
  rw [Said.outcome]
  cases said.fault with
  | none => simp
  | some f' => simp

/-- The byte after the last whole sample, if there is one. -/
def dangling (bytes : List UInt8) : List UInt8 := bytes.drop (bytes.length - bytes.length % 2)

theorem wholeSamples_eq (pending message : List UInt8) :
    wholeSamples pending message =
      (Audio.Wave.samples (pending ++ message), dangling (pending ++ message)) := rfl

theorem dangling_cons_cons (low high : UInt8) (rest : List UInt8) :
    dangling (low :: high :: rest) = dangling rest := by
  simp only [dangling, List.length_cons]
  rw [show rest.length + 1 + 1 - (rest.length + 1 + 1) % 2 =
    rest.length - rest.length % 2 + 1 + 1 by omega]
  rfl

/-- Bytes in two pieces, or in one. -/
theorem samples_append (a b : List UInt8) :
    Audio.Wave.samples (a ++ b) =
        Audio.Wave.samples a ++ Audio.Wave.samples (dangling a ++ b) ∧
      dangling (a ++ b) = dangling (dangling a ++ b) := by
  induction a using Audio.Wave.samples.induct with
  | case1 low high rest ih =>
      simp only [List.cons_append, dangling_cons_cons, Audio.Wave.samples]
      exact ⟨congrArg _ ih.1, ih.2⟩
  | case2 a hshort =>
      match a, hshort with
      | [], _ => exact ⟨rfl, rfl⟩
      | [_], _ => exact ⟨rfl, rfl⟩
      | low :: high :: rest, hshort => exact absurd rfl (hshort low high rest)

/-- What holds of a stream between two messages. -/
structure Attending (r : Recognizer σ S) (st : Stream S) : Prop where
  unfinished : st.extractor.finished = false
  resampler : st.extractor.resampler = none
  rate : ∀ rate ∈ st.extractor.rate, rate = r.frontEnd.rate
  position : 0 ≤ st.position
  frames : st.extractor.frames = [] ∨ r.frontEnd.check = .ok ()

/-- The extractor of a stream that has had audio at the front end's rate. -/
def rated (r : Recognizer σ S) (st : Stream S) : Audio.Extractor S :=
  { st.extractor with rate := some r.frontEnd.rate }

theorem feed_eq {r : Recognizer σ S} {st : Stream S} (h : Attending r st) (samples : List Int) :
    feed r samples st =
      st.withExtractor
        (Audio.Extractor.compute r.frontEnd (samples.map r.frontEnd.sample) (rated r st)) := by
  have haccept : (st.extractor.accept r.frontEnd r.frontEnd.rate (.array
      { shape := [(samples.map r.frontEnd.sample).length],
        data := (samples.map r.frontEnd.sample).toArray })).2 =
      Audio.Extractor.compute r.frontEnd (samples.map r.frontEnd.sample) (rated r st) := by
    rw [Audio.Extractor.accept, h.unfinished]
    cases hrate : st.extractor.rate with
    | none => simp [Argument.tensor, Audio.Extractor.acceptChecked, rated]
    | some rate =>
        obtain rfl := h.rate rate hrate
        simp [Argument.tensor, Audio.Extractor.acceptChecked, rated]
  simp only [feed, Stream.accept, haccept]

theorem Attending.reseat {r : Recognizer σ S} {s : Session σ S} {x : Audio.Extractor S}
    {samples : List S} (h : Attending r s.stream)
    (hgrow : (rated r s.stream).grow r.frontEnd samples = .ok x) :
    Attending r (s.reseat x).stream ∧ s.stream.extractor.frames <+: x.frames ∧
      x.rate = some r.frontEnd.rate := by
  obtain ⟨made, pending, rfl, hmade⟩ := Audio.Extractor.grow_inv hgrow
  refine ⟨⟨h.unfinished, h.resampler, ?_, h.position, ?_⟩, List.prefix_append _ _, rfl⟩
  · intro rate hrate
    exact (Option.some.inj hrate).symm
  · obtain rfl | hcheck := hmade
    · obtain hnil | hcheck := h.frames
      · exact .inl (by simp [Session.reseat, rated, hnil])
      · exact .inr hcheck
    · exact .inr hcheck

theorem attending_newStream [Zero S] [Add S] [Sub S] [LT S] [DecidableLT S] [LogScale S]
    {r : Recognizer σ S} {st : Stream S} (h : r.newStream = .ok st) :
    Attending r st := by
  rw [Recognizer.newStream] at h
  cases hlayout : r.frontEnd.layout with
  | error f => simp [hlayout, bind, Except.bind] at h
  | ok _ =>
      cases hroom : r.model.roomForContext with
      | error f => simp [hlayout, hroom, bind, Except.bind] at h
      | ok _ =>
          cases hstates : r.model.initialStates with
          | error f => simp [hlayout, hroom, hstates, bind, Except.bind] at h
          | ok states =>
              simp only [hlayout, hroom, hstates, bind, Except.bind, pure, Except.pure,
                Except.ok.injEq] at h
              subst h
              exact ⟨rfl, rfl, by simp, le_rfl, .inl rfl⟩

section

variable [Zero S] [Add S] [Sub S] [BEq S] [LT S] [DecidableLT S] [LE S] [DecidableLE S]
variable [LogScale S] [Countable S] [HMul Int S S]

/-- Takes samples in, and makes all passes that there is audio for then. -/
def absorb (r : Recognizer σ S) (samples : List S) (s : Session σ S) :
    Except (Fault × σ) (List (Event S) × Session σ S) :=
  match (rated r s.stream).grow r.frontEnd samples with
  | .error f => .error (f, s.network)
  | .ok x => drain r (s.reseat x)

/-- Hears one message, with the byte left over before, and gives the one left over now. -/
def hear (r : Recognizer σ S) (message pending : List UInt8) (s : Session σ S) :
    Except (Fault × σ) (List (Event S) × List UInt8 × Session σ S) :=
  let (samples, pending) := wholeSamples pending message
  (absorb r (samples.map r.frontEnd.sample) s).map fun p => (p.1, pending, p.2)

variable {r : Recognizer σ S} {s : Session σ S} {message pending : List UInt8}

theorem listen_cons (h : Attending r s.stream) (hne : message ≠ [])
    (messages : List (List UInt8)) :
    (listen r pending s (message :: messages)).outcome =
      hear r message pending s >>= fun q =>
        (listen r q.2.1 q.2.2 messages).outcome.map fun p =>
          (q.1.filter Event.isNews ++ p.1, p.2) := by
  rw [listen, hear]
  · cases wholeSamples pending message with
    | mk samples rest =>
        dsimp only
        rw [feed_eq h, absorb, Audio.Extractor.grow]
        cases Audio.Extractor.compute r.frontEnd (samples.map r.frontEnd.sample)
            (rated r s.stream) with
        | error f x => rfl
        | ok _ x =>
            dsimp only [Stream.withExtractor]
            rw [drain, Session.reseat]
            cases decodeAll r ⟨s.network, { s.stream with extractor := x }⟩ with
            | error f s' => rfl
            | ok events s' => exact outcome_after events _
  · exact hne

/-- A stream without frames has no window. -/
theorem drain_of_frames_nil (hoffset : 1 ≤ r.model.offset) (hsegment : 0 ≤ r.model.segment)
    (hpos : 0 ≤ s.stream.position) (hframes : s.stream.extractor.frames = []) :
    drain r s = .ok ([], s) := by
  have hready : r.isReady s.stream = false := by
    rw [Bool.eq_false_iff, ne_eq, isReady_iff, Audio.Extractor.ready, hframes, List.length_nil]
    omega
  rw [drain_eq hoffset, hready]
  rfl

theorem Attending.absorb {samples : List S} {p : List (Event S) × Session σ S}
    (h : Attending r s.stream) (hoffset : 1 ≤ r.model.offset)
    (habsorb : absorb r samples s = .ok p) : Attending r p.2.stream := by
  rw [Conversation.absorb] at habsorb
  cases hgrow : (rated r s.stream).grow r.frontEnd samples with
  | error f =>
      rw [hgrow] at habsorb
      cases habsorb
  | ok x =>
      rw [hgrow] at habsorb
      obtain ⟨hx, hpos⟩ := drain_inv hoffset habsorb
      have hin := (h.reseat hgrow).1
      have hposition := hin.position
      exact ⟨hx ▸ hin.unfinished, hx ▸ hin.resampler, hx ▸ hin.rate, by omega, hx ▸ hin.frames⟩

/-- Samples in two pieces, or in one. -/
theorem absorb_append (hfe : r.frontEnd.Overlapping) (hoffset : 1 ≤ r.model.offset)
    (hsegment : 0 ≤ r.model.segment) (h : Attending r s.stream) (a b : List S) :
    absorb r (a ++ b) s = absorb r a s >>= fun p => (absorb r b p.2).map (after p.1) := by
  rw [absorb, absorb, Audio.Extractor.grow_append hfe]
  cases hgrow : (rated r s.stream).grow r.frontEnd a with
  | error f => rfl
  | ok x =>
      obtain ⟨hx, hprefix, hrate⟩ := h.reseat hgrow
      have hrated {st : Stream S} (hst : st.extractor = x) : rated r st = x := by
        rw [rated, hst, ← hrate]
      dsimp only [bind, Except.bind]
      cases hmore : x.grow r.frontEnd b with
      | error f =>
          have hnil : x.frames = [] :=
            hx.frames.resolve_right (Audio.Extractor.check_of_grow_error hfe hmore)
          rw [drain_of_frames_nil hoffset hsegment hx.position hnil]
          dsimp only
          rw [absorb, hrated rfl, hmore]
          rfl
      | ok y =>
          obtain ⟨made, rest, hy, -⟩ := Audio.Extractor.grow_inv hmore
          have hxy : x.frames <+: y.frames := hy ▸ List.prefix_append _ _
          have hdrain := drain_reseat hoffset hsegment hx.position (x := y) hxy
          change drain r ((s.reseat x).reseat y) = _
          rw [hdrain]
          cases hfirst : drain r (s.reseat x) with
          | error e => rfl
          | ok p =>
              dsimp only [bind, Except.bind]
              rw [absorb, hrated (drain_inv hoffset hfirst).1, hmore]

/-- Two messages, or one. -/
theorem hear_append (hfe : r.frontEnd.Overlapping) (hoffset : 1 ≤ r.model.offset)
    (hsegment : 0 ≤ r.model.segment) (h : Attending r s.stream) (first second : List UInt8) :
    hear r (first ++ second) pending s =
      hear r first pending s >>= fun q =>
        (hear r second q.2.1 q.2.2).map fun q' => (q.1 ++ q'.1, q'.2) := by
  obtain ⟨hsamples, hdangling⟩ := samples_append (pending ++ first) second
  simp only [hear, wholeSamples_eq, ← List.append_assoc, hsamples, hdangling, List.map_append,
    absorb_append hfe hoffset hsegment h]
  generalize (Audio.Wave.samples (pending ++ first)).map r.frontEnd.sample = samples
  cases absorb r samples s with
  | error e => rfl
  | ok p =>
      dsimp only [bind, Except.bind, Except.map]
      cases absorb r _ p.2 with
      | error e => rfl
      | ok q => rfl

theorem Attending.hear {q : List (Event S) × List UInt8 × Session σ S}
    (h : Attending r s.stream) (hoffset : 1 ≤ r.model.offset)
    (hhear : hear r message pending s = .ok q) : Attending r q.2.2.stream := by
  rw [Conversation.hear] at hhear
  dsimp only at hhear
  generalize hsamples : (wholeSamples pending message).1.map r.frontEnd.sample = samples at hhear
  cases habsorb : Conversation.absorb r samples s with
  | error e =>
      rw [habsorb] at hhear
      cases hhear
  | ok p =>
      rw [habsorb] at hhear
      cases hhear
      exact h.absorb hoffset habsorb

theorem listen_append (hfe : r.frontEnd.Overlapping) (hoffset : 1 ≤ r.model.offset)
    (hsegment : 0 ≤ r.model.segment) (h : Attending r s.stream) {first second : List UInt8}
    (hfirst : first ≠ []) (hsecond : second ≠ []) (messages : List (List UInt8)) :
    (listen r pending s (first :: second :: messages)).outcome =
      (listen r pending s ((first ++ second) :: messages)).outcome := by
  rw [listen_cons h hfirst, listen_cons h (List.append_ne_nil_of_left_ne_nil hfirst second),
    hear_append hfe hoffset hsegment h]
  cases hhear : hear r first pending s with
  | error e => rfl
  | ok q =>
      dsimp only [bind, Except.bind]
      rw [listen_cons (h.hear hoffset hhear) hsecond]
      cases hear r second q.2.1 q.2.2 with
      | error e => rfl
      | ok q' =>
          dsimp only [bind, Except.bind, Except.map]
          cases (listen r q'.2.1 q'.2.2 messages).outcome with
          | error e => rfl
          | ok p => simp only [List.filter_append, List.append_assoc]

/-- All messages can be joined to one. -/
theorem listen_flatten (hfe : r.frontEnd.Overlapping) (hoffset : 1 ≤ r.model.offset)
    (hsegment : 0 ≤ r.model.segment) (h : Attending r s.stream) (hne : message ≠ [])
    {messages : List (List UInt8)} (hmessages : [] ∉ messages) :
    (listen r pending s (message :: messages ++ [[]])).outcome =
      (listen r pending s [message ++ messages.flatten, []]).outcome := by
  induction messages generalizing message with
  | nil => rw [List.flatten_nil, List.append_nil, List.singleton_append]
  | cons next messages ih =>
      rw [List.mem_cons, not_or] at hmessages
      have hnext : next ≠ [] := Ne.symm hmessages.1
      rw [List.cons_append, List.cons_append, listen_append hfe hoffset hsegment h hne hnext,
        List.flatten_cons, ← List.append_assoc]
      exact ih (List.append_ne_nil_of_left_ne_nil hne next) hmessages.2

/-- The messages with some bytes in them: one or none, and the empty one that ends them. -/
def joined (bytes : List UInt8) : List (List UInt8) := if bytes = [] then [[]] else [bytes, []]

theorem listen_joined (hfe : r.frontEnd.Overlapping) (hoffset : 1 ≤ r.model.offset)
    (hsegment : 0 ≤ r.model.segment) (h : Attending r s.stream) {messages : List (List UInt8)}
    (hmessages : [] ∉ messages) :
    (listen r pending s (messages ++ [[]])).outcome =
      (listen r pending s (joined messages.flatten)).outcome := by
  cases messages with
  | nil => rfl
  | cons message messages =>
      rw [List.mem_cons, not_or] at hmessages
      have hne : message ≠ [] := Ne.symm hmessages.1
      rw [listen_flatten hfe hoffset hsegment h hne hmessages.2, joined, List.flatten_cons,
        if_neg (List.append_ne_nil_of_left_ne_nil hne _)]

section

variable {vocabulary : Nat}

theorem hear_lasting (hr : r.Dependable vocabulary) (hfe : r.frontEnd.Overlapping)
    (hoffset : 1 ≤ r.model.offset) (h : Attending r s.stream)
    (hsound : r.method.Sound r.model.toNetwork vocabulary r.graph s.stream.search) :
    Lasting r vocabulary ((hear r message pending s).map fun q => (q.1, q.2.2)) := by
  rw [hear, wholeSamples_eq]
  dsimp only
  generalize (Audio.Wave.samples (pending ++ message)).map r.frontEnd.sample = samples
  rw [absorb, Audio.Extractor.grow_of_check samples hfe hr.check]
  generalize Audio.Extractor.taken r.frontEnd _ (rated r s.stream) = x
  have hlasting : Lasting r vocabulary (drain r (s.reseat x)) :=
    drain_lasting hr hoffset h.position hsound
  dsimp only
  cases hdrain : drain r (s.reseat x) with
  | error e =>
      rw [hdrain] at hlasting
      exact hlasting
  | ok p =>
      rw [hdrain] at hlasting
      exact hlasting

theorem conclude_fault (hr : r.Dependable vocabulary) (hoffset : 1 ≤ r.model.offset)
    (h : Attending r s.stream)
    (hsound : r.method.Sound r.model.toNetwork vocabulary r.graph s.stream.search) :
    ∀ f ∈ (conclude r s).fault, r.endpoints ≠ none ∧ f = .timeTooLarge := by
  obtain ⟨x, hfinish⟩ : ∃ x, s.stream.finish r.frontEnd = .ok () (s.reseat x).stream := by
    rw [Stream.finish, Audio.Extractor.finish, h.unfinished, h.resampler]
    exact ⟨_, rfl⟩
  have hlasting : Lasting r vocabulary (drain r (s.reseat x)) :=
    drain_lasting hr hoffset h.position hsound
  rw [drain] at hlasting
  have hseated : ({ s with stream := (s.reseat x).stream } : Session σ S) = s.reseat x := rfl
  rw [conclude, hfinish]
  dsimp only
  rw [hseated]
  cases hdecode : decodeAll r (s.reseat x) with
  | error f s' =>
      rw [hdecode] at hlasting
      intro f' hf'
      exact Option.some.inj hf' ▸ hlasting
  | ok events s' =>
      rw [hdecode] at hlasting
      dsimp only
      cases hover : r.isEndpoint s'.stream with
      | error f =>
          rw [Recognizer.transcript, hover]
          intro f' hf'
          exact Option.some.inj hf' ▸ isEndpoint_of_error hover
      | ok isOver =>
          obtain ⟨t, st, htranscript, -⟩ := transcript_eq_ok hr hover hlasting
          rw [htranscript]
          intro f' hf'
          cases hf'

/-- A recognizer that has all it needs goes through any conversation. -/
theorem listen_fault (hr : r.Dependable vocabulary) (hfe : r.frontEnd.Overlapping)
    (hoffset : 1 ≤ r.model.offset) (h : Attending r s.stream)
    (hsound : r.method.Sound r.model.toNetwork vocabulary r.graph s.stream.search)
    (messages : List (List UInt8)) :
    ∀ f ∈ (listen r pending s messages).fault, r.endpoints ≠ none ∧ f = .timeTooLarge := by
  induction messages generalizing pending s with
  | nil =>
      intro f hf
      cases hf
  | cons message messages ih =>
      by_cases hnil : message = []
      · subst hnil
        exact conclude_fault hr hoffset h hsound
      · have hlasting : Lasting r vocabulary
            ((hear r message pending s).map fun q => (q.1, q.2.2)) :=
          hear_lasting hr hfe hoffset h hsound
        intro f hf
        obtain ⟨network, hf⟩ := fault_eq_some_iff.mp hf
        rw [listen_cons h hnil] at hf
        cases hhear : hear r message pending s with
        | error e =>
            rw [hhear] at hlasting hf
            cases hf
            exact hlasting
        | ok q =>
            rw [hhear] at hlasting hf
            change (listen r q.2.1 q.2.2 messages).outcome.map _ = .error (f, network) at hf
            cases hlater : (listen r q.2.1 q.2.2 messages).outcome with
            | error e =>
                rw [hlater] at hf
                cases hf
                exact ih (h.hear hoffset hhear) hlasting f (fault_eq_some_iff.mpr ⟨network, hlater⟩)
            | ok p =>
                rw [hlater] at hf
                cases hf

theorem converse_fault (hr : r.Dependable vocabulary) (hfe : r.frontEnd.Overlapping)
    (hoffset : 1 ≤ r.model.offset) (network : σ) (messages : List (List UInt8)) :
    ∀ f ∈ (converse r network messages).fault, r.endpoints ≠ none ∧ f = .timeTooLarge := by
  obtain ⟨st, hstream, hsound⟩ := newStream_eq_ok hr
  rw [converse, hstream]
  exact listen_fault hr hfe hoffset (attending_newStream hstream) hsound messages

end

/-- A conversation ends in the same way, and tells the same, however its audio is cut into
messages. The encoder reads a number of frames and goes on by at least one, and the windows of
frames overlap or touch. If the recognizer has all it needs, then it can only fail on an utterance
too long to be timed for its endpoint rules. -/
theorem converse_cut (r : Recognizer σ S) (network : σ) (hfe : r.frontEnd.Overlapping)
    (hoffset : 1 ≤ r.model.offset) (hsegment : 0 ≤ r.model.segment)
    (messages messages' : List (List UInt8)) (hne : [] ∉ messages) (hne' : [] ∉ messages')
    (hbytes : messages.flatten = messages'.flatten) :
    let said := converse r network (messages ++ [[]])
    let said' := converse r network (messages' ++ [[]])
    said.fault = said'.fault ∧ said.network = said'.network ∧
      (said.fault = none → said.told = said'.told) ∧
      ∀ vocabulary, r.Dependable vocabulary →
        ∀ f ∈ said.fault, r.endpoints ≠ none ∧ f = .timeTooLarge := by
  have houtcome : (converse r network (messages ++ [[]])).outcome =
      (converse r network (messages' ++ [[]])).outcome := by
    rw [converse, converse]
    cases hstream : r.newStream with
    | error f => rfl
    | ok st =>
        have h := attending_newStream hstream
        dsimp only
        rw [listen_joined hfe hoffset hsegment h hne, listen_joined hfe hoffset hsegment h hne',
          hbytes]
  obtain ⟨hfault, hnetwork, htold⟩ := of_outcome_eq houtcome
  exact ⟨hfault, hnetwork, htold, fun vocabulary hr => converse_fault hr hfe hoffset network _⟩

end

/-- A recognizer that hears the same letter everywhere. -/
def steady : Recognizer Unit Float where
  model :=
    { contextSize := 2
      predict := fun rows => pure (rows.map fun _ => [0])
      join := fun _ rows => pure (rows.map fun _ => [0, 1])
      segment := 45
      offset := 32
      initialStates := .ok []
      encode := fun _ states => pure (.array { shape := [1, 1, 1], data := #[0] }, states) }
  symbols := { entries := [(1, "a")] }
  frontEnd :=
    { rate := 16000
      bins := 80
      window := 400
      shift := 160
      check := .ok ()
      frame := id
      converter := fun _ => .error .zeroShift
      sample := fun n => Float.ofInt n / Audio.sampleScale }
  method := .greedy
  endpoints := none
  frameShift := 0.01

theorem steady_dependable : steady.Dependable 2 where
  layout := rfl
  check := rfl
  segment := by decide
  room := rfl
  states := ⟨[], rfl⟩
  networks :=
    { contextSize := by decide
      vocabulary_pos := by decide
      vocabulary_le := by decide
      predict := fun rows _ => ⟨_, _, rfl, List.length_map _⟩
      join := fun _ rows _ => ⟨_, _, rfl, List.length_map _, by simp⟩ }
  encode := fun _ states _ => ⟨_, _, rfl, _, rfl⟩
  symbols := fun t ht => by
    have hpos := ht.nonneg
    have hlt := ht.lt
    obtain rfl | rfl : t = 0 ∨ t = 1 := by omega
    · exact absurd ht.isEmission (by decide)
    · exact ⟨_, rfl⟩
  graph := fun g hg => by cases hg

theorem converse_cut_every_byte :
    let bytes := List.replicate 20000 (7 : UInt8)
    let said := converse steady () (bytes.map (fun byte => [byte]) ++ [[]])
    let said' := converse steady () ([bytes] ++ [[]])
    said.fault = none ∧ said.told = said'.told := by
  have hne (bytes : List UInt8) : [] ∉ bytes.map fun byte => [byte] := by simp
  have hflatten (bytes : List UInt8) :
      (bytes.map fun byte => [byte]).flatten = [bytes].flatten := by
    rw [List.flatten_singleton, ← List.flatMap_def, List.flatMap_singleton']
  obtain ⟨-, -, htold, hfault⟩ := converse_cut steady () ⟨by decide, by decide⟩ (by decide)
    (by decide) ((List.replicate 20000 7).map fun byte => [byte]) [List.replicate 20000 7]
    (hne _) (by decide) (hflatten _)
  have hnone : (converse steady () ((List.replicate 20000 7).map (fun byte => [byte]) ++
      [[]])).fault = none := by
    rw [Option.eq_none_iff_forall_not_mem]
    exact fun f hf => (hfault 2 steady_dependable f hf).1 rfl
  exact ⟨hnone, htold hnone⟩

end SpeechTransducer.Conversation
