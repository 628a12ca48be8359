import Mathlib.Data.List.Infix
import SpeechTransducer.Conversation.Socket

/-!
Decoding all that a stream holds. A pass decodes one window, and starts a new utterance at an
endpoint; the loop makes passes until the next window is not there yet. A pass sees of the audio
only the window that it reads, so that frames which come later neither change it nor are changed by
it: audio may come before or after the passes that do not need it.
-/

namespace SpeechTransducer

/-- Where a stream is, in frames from its start. -/
def Stream.position {S : Type} (st : Stream S) : Int := st.start + st.processed

/-- The session with another extractor. -/
def Session.reseat {σ S : Type} (x : Audio.Extractor S) (s : Session σ S) : Session σ S :=
  { s with stream := { s.stream with extractor := x } }

namespace Conversation

variable {σ S α : Type}

/-- What becomes of a step: its value and the session, or the failure and the networks' state. -/
def outcome : EStateM.Result Fault (Session σ S) α → Except (Fault × σ) (α × Session σ S)
  | .ok a s => .ok (a, s)
  | .error f s => .error (f, s.network)

/-- Adds events in front of those of a step. -/
def after (events : List (Event S)) (p : List (Event S) × Session σ S) :
    List (Event S) × Session σ S :=
  (events ++ p.1, p.2)

theorem isReady_iff (r : Recognizer σ S) (st : Stream S) :
    r.isReady st = true ↔ st.position + r.model.segment < st.extractor.ready := by
  rw [Recognizer.isReady, decide_eq_true_iff, Stream.ready, Stream.position]
  omega

theorem isReady_of_prefix {r : Recognizer σ S} {s : Session σ S} {x : Audio.Extractor S}
    (hx : s.stream.extractor.frames <+: x.frames) (h : r.isReady s.stream = true) :
    r.isReady (s.reseat x).stream = true := by
  rw [isReady_iff] at h ⊢
  exact Int.lt_of_lt_of_le h (Int.ofNat_le.mpr hx.length_le)

theorem windowsLeft_eq (r : Recognizer σ S) (st : Stream S) :
    r.windowsLeft st = (st.extractor.ready - st.position - r.model.segment).toNat + 1 := by
  rw [Recognizer.windowsLeft, Stream.ready, Stream.position]
  congr 2
  omega

/-- A window that is there stays the same when frames are added. -/
theorem get_of_prefix [Zero S] (fe : Audio.FrontEnd S) {x y : Audio.Extractor S} {index n : Int}
    (hx : x.frames <+: y.frames) (hindex : 0 ≤ index) (hn : 0 ≤ n) (hin : index + n ≤ x.ready) :
    y.get fe index n = x.get fe index n := by
  have hle : (x.ready : Int) ≤ y.ready := Int.ofNat_le.mpr hx.length_le
  have hslice : slice index (index + n) y.frames = slice index (index + n) x.frames := by
    obtain ⟨more, hmore⟩ := hx
    simp only [Audio.Extractor.ready] at hin hle
    simp only [slice, resolvePosition, ← hmore, List.length_append]
    rw [if_neg (by omega), if_neg (by omega), if_neg (by omega), if_neg (by omega),
      List.drop_append_of_le_length (by omega), List.take_append_of_le_length]
    · congr 1
      · omega
      · congr 1
        omega
    · rw [List.length_drop]
      omega
  rw [Audio.Extractor.get, Audio.Extractor.get, hslice]
  simp only [show ¬(index < 0 ∨ (x.ready : Int) < index + n) by omega,
    show ¬(index < 0 ∨ (y.ready : Int) < index + n) by omega, if_false]

section

variable [BEq S] [LT S] [DecidableLT S] [LE S] [DecidableLE S] [Countable S] [HMul Int S S]

theorem transcript_inv {r : Recognizer σ S} {st st' : Stream S} {t : Transcript S}
    (h : r.transcript st = .ok t st') : st' = st ∨ st' = st.finalize := by
  rw [Recognizer.transcript] at h
  split at h
  · cases h
  · rename_i isOver _
    cases isOver
    · dsimp only at h
      split at h
      · cases h
      · cases h
        exact .inl rfl
    · dsimp only at h
      split at h
      · cases h
      · cases h
        exact .inr rfl

theorem transcript_reseat (r : Recognizer σ S) (s : Session σ S) (x : Audio.Extractor S) :
    r.transcript (s.reseat x).stream =
      match r.transcript s.stream with
      | .ok t stream => .ok t { stream with extractor := x }
      | .error f stream => .error f { stream with extractor := x } := by
  have hendpoint : r.isEndpoint (s.reseat x).stream = r.isEndpoint s.stream := rfl
  rw [Recognizer.transcript, Recognizer.transcript, hendpoint]
  cases r.isEndpoint s.stream with
  | error f => rfl
  | ok isOver =>
      cases isOver
      · have hcurrent :
            r.currentTranscript (s.reseat x).stream = r.currentTranscript s.stream := rfl
        simp only [Bool.false_eq_true, if_false, hcurrent]
        cases r.currentTranscript s.stream <;> rfl
      · have hcurrent : r.currentTranscript (s.reseat x).stream.finalize =
            r.currentTranscript s.stream.finalize := rfl
        simp only [if_true, hcurrent]
        cases r.currentTranscript s.stream.finalize <;> rfl

end

section

variable [Zero S] [Add S] [Sub S] [BEq S] [LT S] [DecidableLT S] [LogScale S]

theorem decode_inv {r : Recognizer σ S} {s s' : Session σ S} (h : r.decode s = .ok () s') :
    ∃ search encoderStates, s'.stream =
      { s.stream with
        processed := s.stream.processed + r.model.offset, search, encoderStates } := by
  rw [Recognizer.decode] at h
  dsimp only at h
  split at h
  · cases h
  · split at h
    · cases h
    · split at h
      · cases h
      · split at h
        · cases h
        · cases h
          exact ⟨_, _, rfl⟩

/-- A window is decoded in the same way when more frames have come. -/
theorem decode_reseat {r : Recognizer σ S} {s : Session σ S} {x : Audio.Extractor S}
    (hsegment : 0 ≤ r.model.segment) (hpos : 0 ≤ s.stream.position)
    (hx : s.stream.extractor.frames <+: x.frames) (hready : r.isReady s.stream = true) :
    r.decode (s.reseat x) =
      match r.decode s with
      | .ok _ s' => .ok () (s'.reseat x)
      | .error f s' => .error f (s'.reseat x) := by
  have hframes : (s.reseat x).stream.frames r.frontEnd s.stream.processed r.model.segment =
      s.stream.frames r.frontEnd s.stream.processed r.model.segment := by
    rw [isReady_iff] at hready
    exact get_of_prefix r.frontEnd hx hpos hsegment (Int.le_of_lt hready)
  rw [Recognizer.decode, Recognizer.decode]
  simp only [hready, isReady_of_prefix hx hready, Bool.not_true, Bool.false_eq_true, if_false]
  rw [show (s.reseat x).stream.processed = s.stream.processed from rfl, hframes]
  cases s.stream.frames r.frontEnd s.stream.processed r.model.segment with
  | error f => rfl
  | ok features =>
      dsimp only [Session.reseat]
      cases r.model.encode features s.stream.encoderStates s.network with
      | error f network => rfl
      | ok out network =>
          obtain ⟨out, states⟩ := out
          dsimp only
          cases r.method.decode r.model.toNetwork r.graph out ⟨network, s.stream.search⟩ with
          | error f found => rfl
          | ok _ found => rfl

variable [LE S] [DecidableLE S] [Countable S] [HMul Int S S]

/-- One pass: a window is decoded, and an utterance that is over makes room for the next. -/
def pass (r : Recognizer σ S) (s : Session σ S) :
    Except (Fault × σ) (List (Event S) × Session σ S) :=
  match r.decode s with
  | .error f s => .error (f, s.network)
  | .ok _ s =>
    match r.isEndpoint s.stream with
    | .error f => .error (f, s.network)
    | .ok isEndpoint =>
      match r.transcript s.stream with
      | .error f _ => .error (f, s.network)
      | .ok t stream =>
        .ok (eventsOf isEndpoint t,
          { s with stream := if isEndpoint then r.restart stream else stream })

/-- A pass leaves the audio as it is, and goes on by the offset of the encoder. -/
theorem pass_inv {r : Recognizer σ S} {s : Session σ S} {p : List (Event S) × Session σ S}
    (h : pass r s = .ok p) :
    p.2.stream.extractor = s.stream.extractor ∧
      p.2.stream.position = s.stream.position + r.model.offset := by
  rw [pass] at h
  split at h
  · cases h
  · rename_i s' hdecode
    obtain ⟨search, states, hst⟩ := decode_inv hdecode
    have hpos : s'.stream.position = s.stream.position + r.model.offset := by
      rw [hst, Stream.position, Stream.position, Int.add_assoc]
    split at h
    · cases h
    · split at h
      · cases h
      · rename_i isEndpoint _ _ t stream htranscript
        cases h
        have hstream : stream.extractor = s.stream.extractor ∧
            stream.start = s'.stream.start ∧ stream.processed = s'.stream.processed := by
          obtain rfl | rfl := transcript_inv htranscript
          · exact ⟨by rw [hst], rfl, rfl⟩
          · exact ⟨by rw [hst]; rfl, rfl, rfl⟩
        obtain ⟨hx, hstart, hprocessed⟩ := hstream
        rw [← hpos, Stream.position, Stream.position, ← hstart, ← hprocessed]
        cases isEndpoint
        · exact ⟨hx, rfl⟩
        · exact ⟨hx, Int.add_zero _⟩

theorem pass_reseat {r : Recognizer σ S} {s : Session σ S} {x : Audio.Extractor S}
    (hsegment : 0 ≤ r.model.segment) (hpos : 0 ≤ s.stream.position)
    (hx : s.stream.extractor.frames <+: x.frames) (hready : r.isReady s.stream = true) :
    pass r (s.reseat x) = (pass r s).map fun p => (p.1, p.2.reseat x) := by
  rw [pass, pass, decode_reseat hsegment hpos hx hready]
  cases r.decode s with
  | error f s' => rfl
  | ok _ s' =>
      have hendpoint : r.isEndpoint (s'.reseat x).stream = r.isEndpoint s'.stream := rfl
      dsimp only
      rw [hendpoint]
      cases r.isEndpoint s'.stream with
      | error f => rfl
      | ok isEndpoint =>
          rw [transcript_reseat]
          cases r.transcript s'.stream with
          | error f st => rfl
          | ok t st => cases isEndpoint <;> rfl

/-- All passes that a stream has audio for. -/
def drain (r : Recognizer σ S) (s : Session σ S) :
    Except (Fault × σ) (List (Event S) × Session σ S) :=
  outcome (decodeAll r s)

section

variable {r : Recognizer σ S} {s : Session σ S}

theorem decodeAvailable_succ (n : Nat) (events : List (Event S)) :
    outcome (decodeAvailable r (n + 1) events s) =
      if r.isReady s.stream then
        pass r s >>= fun p => outcome (decodeAvailable r n (events ++ p.1) p.2)
      else .ok (events, s) := by
  rw [decodeAvailable, pass]
  cases hready : r.isReady s.stream with
  | false => simp only [hready, Bool.not_false, if_true, Bool.false_eq_true, if_false, outcome]
  | true =>
      simp only [hready, Bool.not_true, Bool.false_eq_true, if_false, if_true]
      cases r.decode s with
      | error f s' => rfl
      | ok _ s' =>
          dsimp only
          cases r.isEndpoint s'.stream with
          | error f => rfl
          | ok isEndpoint =>
              dsimp only
              cases r.transcript s'.stream with
              | error f st => rfl
              | ok t st => rfl

theorem decodeAvailable_events (n : Nat) (events : List (Event S)) :
    outcome (decodeAvailable r n events s) =
      (outcome (decodeAvailable r n [] s)).map (after events) := by
  induction n generalizing events s with
  | zero => simp [decodeAvailable, outcome, after, Except.map, pure, EStateM.pure]
  | succ n ih =>
      rw [decodeAvailable_succ, decodeAvailable_succ]
      cases r.isReady s.stream with
      | false => simp [after, Except.map]
      | true =>
          simp only [if_true]
          cases pass r s with
          | error f => rfl
          | ok p =>
              change outcome (decodeAvailable r n (events ++ p.1) p.2) =
                (outcome (decodeAvailable r n ([] ++ p.1) p.2)).map (after events)
              rw [ih, ih ([] ++ p.1)]
              cases outcome (decodeAvailable r n [] p.2) with
              | error f => rfl
              | ok q => simp [Except.map, after]

theorem windowsLeft_pass {p : List (Event S) × Session σ S} (hoffset : 1 ≤ r.model.offset)
    (hready : r.isReady s.stream = true) (h : pass r s = .ok p) :
    r.windowsLeft p.2.stream < r.windowsLeft s.stream := by
  obtain ⟨hx, hpos⟩ := pass_inv h
  rw [isReady_iff] at hready
  rw [windowsLeft_eq, windowsLeft_eq, hx, hpos]
  omega

/-- More rounds than there are windows left change nothing. -/
theorem decodeAvailable_rounds (hoffset : 1 ≤ r.model.offset) {n m : Nat}
    (hn : r.windowsLeft s.stream ≤ n) (hm : r.windowsLeft s.stream ≤ m) :
    outcome (decodeAvailable r n [] s) = outcome (decodeAvailable r m [] s) := by
  induction n generalizing m s with
  | zero =>
      rw [windowsLeft_eq] at hn
      omega
  | succ n ih =>
      cases m with
      | zero =>
          rw [windowsLeft_eq] at hm
          omega
      | succ m =>
          rw [decodeAvailable_succ, decodeAvailable_succ]
          cases hready : r.isReady s.stream with
          | false => rfl
          | true =>
              simp only [if_true]
              cases hpass : pass r s with
              | error f => rfl
              | ok p =>
                  have hlt := windowsLeft_pass hoffset hready hpass
                  change outcome (decodeAvailable r n ([] ++ p.1) p.2) =
                    outcome (decodeAvailable r m ([] ++ p.1) p.2)
                  rw [decodeAvailable_events n, decodeAvailable_events m]
                  rw [ih (by omega) (m := m) (by omega)]

/-- Draining makes a pass if there is a window, and drains what is left. -/
theorem drain_eq (hoffset : 1 ≤ r.model.offset) (s : Session σ S) :
    drain r s =
      if r.isReady s.stream then pass r s >>= fun p => (drain r p.2).map (after p.1)
      else .ok ([], s) := by
  obtain ⟨n, hn⟩ : ∃ n, r.windowsLeft s.stream = n + 1 := ⟨_, rfl⟩
  rw [drain, decodeAll, hn, decodeAvailable_succ]
  cases hready : r.isReady s.stream with
  | false => rfl
  | true =>
      simp only [if_true]
      cases hpass : pass r s with
      | error f => rfl
      | ok p =>
          have hlt := windowsLeft_pass hoffset hready hpass
          change outcome (decodeAvailable r n ([] ++ p.1) p.2) = (drain r p.2).map (after p.1)
          rw [decodeAvailable_events, List.nil_append, drain, decodeAll,
            decodeAvailable_rounds hoffset (by omega) le_rfl]

/-- Induction along the passes that a session has audio for. -/
theorem drain_induction {motive : Session σ S → Prop} (hoffset : 1 ≤ r.model.offset)
    (waits : ∀ s, r.isReady s.stream = false → motive s)
    (fails : ∀ s e, r.isReady s.stream = true → pass r s = .error e → motive s)
    (goes_on : ∀ s p, r.isReady s.stream = true → pass r s = .ok p → motive p.2 → motive s)
    (s : Session σ S) : motive s := by
  induction hn : r.windowsLeft s.stream using Nat.strong_induction_on generalizing s with
  | _ n ih =>
      cases hready : r.isReady s.stream with
      | false => exact waits s hready
      | true =>
          cases hpass : pass r s with
          | error e => exact fails s e hready hpass
          | ok p =>
              have hlt := windowsLeft_pass hoffset hready hpass
              exact goes_on s p hready hpass (ih _ (hn ▸ hlt) p.2 rfl)

theorem drain_inv (hoffset : 1 ≤ r.model.offset) {p : List (Event S) × Session σ S}
    (h : drain r s = .ok p) :
    p.2.stream.extractor = s.stream.extractor ∧ s.stream.position ≤ p.2.stream.position := by
  induction s using drain_induction hoffset generalizing p with
  | waits s hready =>
      rw [drain_eq hoffset, hready] at h
      cases h
      exact ⟨rfl, Int.le_refl _⟩
  | fails s e hready hpass =>
      rw [drain_eq hoffset, hready, hpass] at h
      cases h
  | goes_on s q hready hpass ih =>
      rw [drain_eq hoffset, hready, hpass] at h
      obtain ⟨hx, hpos⟩ := pass_inv hpass
      simp only [if_true] at h
      change (drain r q.2).map (after q.1) = .ok p at h
      cases hdrain : drain r q.2 with
      | error e =>
          rw [hdrain] at h
          cases h
      | ok q' =>
          rw [hdrain] at h
          cases h
          obtain ⟨hx', hpos'⟩ := ih hdrain
          refine ⟨hx'.trans hx, ?_⟩
          simp only [after]
          omega

/-- When more audio has come, draining is draining what was there before and then the rest. -/
theorem drain_reseat (hoffset : 1 ≤ r.model.offset) (hsegment : 0 ≤ r.model.segment)
    {x : Audio.Extractor S} (hpos : 0 ≤ s.stream.position)
    (hx : s.stream.extractor.frames <+: x.frames) :
    drain r (s.reseat x) =
      drain r s >>= fun p => (drain r (p.2.reseat x)).map (after p.1) := by
  induction s using drain_induction hoffset with
  | waits s hready =>
      rw [drain_eq hoffset s, hready]
      change drain r (s.reseat x) = (drain r (s.reseat x)).map (after [])
      cases drain r (s.reseat x) with
      | error e => rfl
      | ok p => rfl
  | fails s e hready hpass =>
      rw [drain_eq hoffset (s.reseat x), drain_eq hoffset s, isReady_of_prefix hx hready, hready,
        pass_reseat hsegment hpos hx hready, hpass]
      rfl
  | goes_on s p hready hpass ih =>
      obtain ⟨hx', hpos'⟩ := pass_inv hpass
      rw [drain_eq hoffset (s.reseat x), drain_eq hoffset s, isReady_of_prefix hx hready, hready,
        pass_reseat hsegment hpos hx hready, hpass]
      simp only [if_true]
      change (drain r (p.2.reseat x)).map (after p.1) =
        (drain r p.2).map (after p.1) >>= fun q => (drain r (q.2.reseat x)).map (after q.1)
      rw [ih (by omega) (hx' ▸ hx)]
      cases drain r p.2 with
      | error e => rfl
      | ok q =>
          change ((drain r (q.2.reseat x)).map (after q.1)).map (after p.1) =
            (drain r (q.2.reseat x)).map (after (p.1 ++ q.1))
          cases drain r (q.2.reseat x) with
          | error e => rfl
          | ok q' => simp [Except.map, after]

end

end

end Conversation

end SpeechTransducer
