import SpeechTransducer.Proofs.Conversation.Cutting

/-!
A conversation as if all its audio came at once: the samples of all messages are taken in, what
there is then is decoded in one go, and the last utterance is told. Closing the input adds no
frames at the front end's rate, so that nothing is left to decode after it.
-/

namespace SpeechTransducer

namespace Audio.Wave

/-- The bytes of 16-bit samples, the lower one of each first. -/
def pcm (samples : List Int) : List UInt8 := samples.flatMap fun n => bytesOf 2 (n % 65536).toNat

/-- Numbers that a 16-bit sample can have. -/
def InRange (n : Int) : Prop := -32768 ≤ n ∧ n < 32768

theorem sample_bytesOf {n : Int} (h : InRange n) :
    sample (n % 65536).toNat.toUInt8 ((n % 65536).toNat / 256).toUInt8 = n := by
  obtain ⟨hlow, hhigh⟩ := h
  have hmod (k : Nat) : k.toUInt8.toNat = k % 256 := UInt8.toNat_ofNat'
  unfold sample
  simp only [hmod]
  split <;> omega

theorem samples_pcm {xs : List Int} (h : ∀ n ∈ xs, InRange n) : samples (pcm xs) = xs := by
  induction xs with
  | nil => rfl
  | cons n xs ih =>
      rw [List.forall_mem_cons] at h
      have hbytes : pcm (n :: xs) = (n % 65536).toNat.toUInt8 ::
          ((n % 65536).toNat / 256).toUInt8 :: pcm xs := rfl
      rw [hbytes, samples, sample_bytesOf h.1, ih h.2]

end Audio.Wave

namespace Conversation

variable {σ S : Type}
variable [Zero S] [Add S] [Sub S] [BEq S] [LT S] [DecidableLT S] [LE S] [DecidableLE S]
variable [LogScale S] [Countable S] [HMul Int S S]
variable {r : Recognizer σ S} {s : Session σ S}

/-- Draining looks at nothing of the extractor but its frames. -/
theorem drain_sameFrames (hoffset : 1 ≤ r.model.offset) (hsegment : 0 ≤ r.model.segment)
    {x : Audio.Extractor S} (hpos : 0 ≤ s.stream.position)
    (hx : x.frames = s.stream.extractor.frames) :
    drain r (s.reseat x) = (drain r s).map fun p => (p.1, p.2.reseat x) := by
  induction s using drain_induction hoffset with
  | waits s hready =>
      have hready' : r.isReady (s.reseat x).stream = r.isReady s.stream := by
        rw [Bool.eq_iff_iff, isReady_iff, isReady_iff, Audio.Extractor.ready, Audio.Extractor.ready]
        exact hx ▸ Iff.rfl
      rw [drain_eq hoffset (s.reseat x), drain_eq hoffset s, hready', hready]
      rfl
  | fails s e hready hpass =>
      have hprefix : s.stream.extractor.frames <+: x.frames := hx ▸ List.prefix_refl _
      rw [drain_eq hoffset (s.reseat x), drain_eq hoffset s, isReady_of_prefix hprefix hready,
        hready, pass_reseat hsegment hpos hprefix hready, hpass]
      rfl
  | goes_on s p hready hpass ih =>
      have hprefix : s.stream.extractor.frames <+: x.frames := hx ▸ List.prefix_refl _
      obtain ⟨hx', hpos'⟩ := pass_inv hpass
      rw [drain_eq hoffset (s.reseat x), drain_eq hoffset s, isReady_of_prefix hprefix hready,
        hready, pass_reseat hsegment hpos hprefix hready, hpass]
      simp only [if_true]
      change (drain r (p.2.reseat x)).map (after p.1) =
        ((drain r p.2).map (after p.1)).map fun q => (q.1, q.2.reseat x)
      rw [ih (by omega) (hx' ▸ hx)]
      cases drain r p.2 with
      | error e => rfl
      | ok q => rfl

/-- A drained stream has nothing left. -/
theorem drain_again (hoffset : 1 ≤ r.model.offset) (hsegment : 0 ≤ r.model.segment)
    (hpos : 0 ≤ s.stream.position) :
    (drain r s >>= fun p => (drain r p.2).map (after p.1)) = drain r s := by
  have hdrain := drain_reseat hoffset hsegment hpos (List.prefix_refl s.stream.extractor.frames)
  rw [show s.reseat s.stream.extractor = s from rfl] at hdrain
  conv_rhs => rw [hdrain]
  cases hfirst : drain r s with
  | error e => rfl
  | ok p =>
      have hsame : p.2.reseat s.stream.extractor = p.2 := by
        rw [← (drain_inv hoffset hfirst).1]
        rfl
      dsimp only [bind, Except.bind]
      rw [hsame]

section

omit [Zero S] [Add S] [Sub S] [LogScale S]

/-- What the peer is told of a drained stream, with the last utterance. -/
def told (r : Recognizer σ S) (p : List (Event S) × Session σ S) :
    Except (Fault × σ) (List (Event S) × σ) :=
  match r.transcript p.2.stream with
  | .error f _ => .error (f, p.2.network)
  | .ok t _ => .ok (p.1.filter Event.isNews ++ [.final t.text t.timestamps], p.2.network)

theorem told_after (events : List (Event S)) (p : List (Event S) × Session σ S) :
    told r (after events p) =
      (told r p).map fun q => (events.filter Event.isNews ++ q.1, q.2) := by
  rw [told, told, after]
  dsimp only
  cases r.transcript p.2.stream with
  | error f st => rfl
  | ok t st => simp only [Except.map, List.filter_append, List.append_assoc]

theorem told_reseat (p : List (Event S) × Session σ S) (x : Audio.Extractor S) :
    told r (p.1, p.2.reseat x) = told r p := by
  rw [told, told, transcript_reseat]
  cases r.transcript p.2.stream with
  | error f st => rfl
  | ok t st => rfl

end

theorem drain_told_sameFrames (hoffset : 1 ≤ r.model.offset) (hsegment : 0 ≤ r.model.segment)
    {x : Audio.Extractor S} (hpos : 0 ≤ s.stream.position)
    (hx : x.frames = s.stream.extractor.frames) :
    drain r (s.reseat x) >>= told r = drain r s >>= told r := by
  rw [drain_sameFrames hoffset hsegment hpos hx]
  cases drain r s with
  | error e => rfl
  | ok p => exact told_reseat p x

/-- Draining once more tells nothing more. -/
theorem drain_told_again (hoffset : 1 ≤ r.model.offset) (hsegment : 0 ≤ r.model.segment)
    (hpos : 0 ≤ s.stream.position) :
    (drain r s >>= fun p => (drain r p.2 >>= told r).map fun q =>
      (p.1.filter Event.isNews ++ q.1, q.2)) = drain r s >>= told r := by
  conv_rhs => rw [← drain_again hoffset hsegment hpos]
  cases drain r s with
  | error e => rfl
  | ok p =>
      dsimp only [bind, Except.bind]
      cases drain r p.2 with
      | error e => rfl
      | ok q => exact (told_after p.1 q).symm

/-- The extractor once its input is closed. -/
def closed (x : Audio.Extractor S) : Audio.Extractor S := { x with finished := true, pending := [] }

omit [Zero S] [Add S] [Sub S] [BEq S] [LT S] [DecidableLT S] [LE S] [DecidableLE S] [LogScale S]
  [Countable S] [HMul Int S S] in
theorem finish_eq {st : Stream S} (h : Attending r st) :
    st.finish r.frontEnd = .ok () { st with extractor := closed st.extractor } := by
  rw [Stream.finish, Audio.Extractor.finish, h.unfinished, h.resampler]
  rfl

theorem conclude_outcome (hoffset : 1 ≤ r.model.offset) (hsegment : 0 ≤ r.model.segment)
    (h : Attending r s.stream) : (conclude r s).outcome = drain r s >>= told r := by
  rw [← drain_told_sameFrames (x := closed s.stream.extractor) hoffset hsegment h.position rfl,
    conclude, finish_eq h, drain, Session.reseat]
  dsimp only
  cases decodeAll r _ with
  | error f s' => rfl
  | ok events s' =>
      dsimp only [outcome, bind, Except.bind]
      rw [told]
      cases r.transcript s'.stream with
      | error f st => rfl
      | ok t st => simp [Said.outcome, Said.told, Event.isNews]

theorem listen_end (hoffset : 1 ≤ r.model.offset) (hsegment : 0 ≤ r.model.segment)
    {pending : List UInt8} (h : Attending r s.stream) :
    (listen r pending s [[]]).outcome = drain r s >>= told r := by
  rw [listen, outcome_after, conclude_outcome hoffset hsegment h]
  cases drain r s >>= told r with
  | error e => rfl
  | ok q => rfl

/-- One message with some samples, and the end. -/
theorem listen_once (hoffset : 1 ≤ r.model.offset) (hsegment : 0 ≤ r.model.segment)
    (h : Attending r s.stream) {message : List UInt8} (hne : message ≠ []) :
    (listen r [] s [message, []]).outcome =
      absorb r ((Audio.Wave.samples message).map r.frontEnd.sample) s >>= told r := by
  rw [listen_cons h hne, hear, wholeSamples_eq, List.nil_append]
  dsimp only
  generalize (Audio.Wave.samples message).map r.frontEnd.sample = samples
  cases hgrow : (rated r s.stream).grow r.frontEnd samples with
  | error f =>
      rw [absorb, hgrow]
      rfl
  | ok x =>
      have hx := (h.reseat hgrow).1
      have habsorb : absorb r samples s = drain r (s.reseat x) := by
        rw [absorb, hgrow]
      have hagain := drain_told_again (s := s.reseat x) hoffset hsegment hx.position
      rw [← habsorb] at hagain
      rw [← hagain]
      cases hp : absorb r samples s with
      | error e => rfl
      | ok p =>
          dsimp only [bind, Except.bind, Except.map]
          rw [listen_end hoffset hsegment (h.absorb hoffset hp)]
          rfl

/-- After samples have been taken in, the input may be closed before they are decoded. -/
theorem absorb_told (hoffset : 1 ≤ r.model.offset) (hsegment : 0 ≤ r.model.segment)
    (hpos : 0 ≤ s.stream.position) (samples : List S) :
    absorb r samples s >>= told r =
      match (rated r s.stream).grow r.frontEnd samples with
      | .error f => .error (f, s.network)
      | .ok x => drain r (s.reseat (closed x)) >>= told r := by
  rw [absorb]
  cases (rated r s.stream).grow r.frontEnd samples with
  | error f => rfl
  | ok x =>
      have hclosed : drain r ((s.reseat x).reseat (closed x)) >>= told r =
          drain r (s.reseat x) >>= told r :=
        drain_told_sameFrames hoffset hsegment hpos rfl
      exact hclosed.symm

omit [BEq S] [LE S] [DecidableLE S] [Countable S] [HMul Int S S] in
theorem extractor_newStream {st : Stream S} (h : r.newStream = .ok st) : st.extractor = {} := by
  obtain ⟨_, -, h⟩ := bind_inv h
  obtain ⟨_, -, h⟩ := bind_inv h
  obtain ⟨_, -, h⟩ := bind_inv h
  obtain rfl := Except.ok.inj h
  rfl

/-- What becomes of a conversation in which some samples are sent, however they are cut. -/
theorem converse_atOnce (hfe : r.frontEnd.Overlapping) (hoffset : 1 ≤ r.model.offset)
    (hsegment : 0 ≤ r.model.segment) {st : Stream S} (hst : r.newStream = .ok st) (network : σ)
    {samples : List Int} (hsamples : ∀ n ∈ samples, Audio.Wave.InRange n)
    {messages : List (List UInt8)} (hne : [] ∉ messages)
    (hbytes : messages.flatten = Audio.Wave.pcm samples) :
    (converse r network (messages ++ [[]])).outcome =
      absorb r (samples.map r.frontEnd.sample) ⟨network, st⟩ >>= told r := by
  have h : Attending r (⟨network, st⟩ : Session σ S).stream := attending_newStream hst
  rw [converse, hst]
  dsimp only
  rw [listen_joined hfe hoffset hsegment h hne, hbytes]
  cases samples with
  | nil =>
      -- Without bytes only the empty message comes, and the stream never hears of a rate.
      have hgrow : (rated r st).grow r.frontEnd [] = .ok (rated r st) := by
        rw [rated, extractor_newStream hst]
        refine Audio.Extractor.grow_of_lt ?_
        have hpos := hfe.shift_pos
        have hle := hfe.shift_le
        rw [List.append_nil, List.length_nil]
        omega
      change (listen r [] ⟨network, st⟩ [[]]).outcome = _
      rw [listen_end hoffset hsegment h, List.map_nil, absorb, hgrow]
      exact (drain_told_sameFrames (x := rated r st) hoffset hsegment h.position rfl).symm
  | cons n samples =>
      have hpcm : Audio.Wave.pcm (n :: samples) ≠ [] := List.cons_ne_nil _ _
      rw [joined, if_neg hpcm, listen_once hoffset hsegment h hpcm, Audio.Wave.samples_pcm hsamples]

end Conversation

end SpeechTransducer
