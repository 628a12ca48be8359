import SpeechTransducer.CommandLine
import SpeechTransducer.Proofs.Audio.Extraction
import SpeechTransducer.Proofs.Recognizer.Rounds

/-!
The two loops that decode what a stream holds. A conversation makes passes, which tell the text
after every window; the command line takes turns, which give out an utterance once it is over. A
turn goes where a pass goes. Both loops make one round for every window that the stream has left,
wherever the utterances end.
-/

namespace SpeechTransducer

variable {σ S ε α : Type}

/-- What some rounds give out if all of them go through. -/
def gathered (p : List α × Except ε (Session σ S)) : Except ε (List α × Session σ S) :=
  p.2.map fun s => (p.1, s)

section

variable [Zero S] [Add S] [Sub S] [BEq S] [LT S] [DecidableLT S] [LE S] [DecidableLE S]
variable [LogScale S] [Countable S] [HMul Int S S] {r : Recognizer σ S} {s : Session σ S}

namespace Conversation

theorem isRound_pass (r : Recognizer σ S) : r.IsRound (pass r) Prod.fst := by
  constructor
  · intro s p h
    rw [pass] at h
    split at h
    · cases h
    · rename_i s' hdecode
      split at h
      · cases h
      · split at h
        · cases h
        · rename_i isOver _ _ t st htranscript
          cases h
          refine ⟨s', st, hdecode, transcript_inv htranscript, ?_⟩
          cases isOver with
          | false => exact .inl rfl
          | true => exact .inr rfl
  · intro s e h
    rw [pass] at h
    split at h
    · rename_i hdecode
      cases h
      exact .inl ⟨_, hdecode⟩
    · rename_i s' hdecode
      refine .inr ⟨s', hdecode, ?_⟩
      split at h
      · rename_i hend
        cases h
        exact .inl hend
      · split at h
        · rename_i htranscript
          cases h
          exact .inr ⟨_, htranscript⟩
        · cases h

theorem outcome_decodeAvailable (n : Nat) (s : Session σ S) :
    outcome (decodeAvailable r n [] s) = gathered (roundsWhileReady r (pass r) n s) := by
  induction n generalizing s with
  | zero => rfl
  | succ n ih =>
      rw [decodeAvailable_succ, roundsWhileReady]
      cases r.isReady s.stream with
      | false => rfl
      | true =>
          simp only [if_true]
          cases pass r s with
          | error e => rfl
          | ok p =>
              change outcome (decodeAvailable r n ([] ++ p.1) p.2) = _
              rw [decodeAvailable_events, List.nil_append, ih, gathered, gathered]
              dsimp only
              cases (roundsWhileReady r (pass r) n p.2).2 with
              | error e => rfl
              | ok s' => rfl

end Conversation

namespace CommandLine

/-- One turn: a window is decoded, and an utterance that is over is given out if it has a text and
makes room for the next. -/
def turn (r : Recognizer σ S) (s : Session σ S) :
    Except Fault (List (Transcript S) × Session σ S) :=
  match r.decode s with
  | .error f _ => .error f
  | .ok _ s =>
    match r.isEndpoint s.stream with
    | .error f => .error f
    | .ok false => .ok ([], s)
    | .ok true =>
      match r.transcript s.stream with
      | .error f _ => .error f
      | .ok t st => .ok (if t.text == "" then [] else [t], { s with stream := r.restart st })

theorem isRound_turn (r : Recognizer σ S) : r.IsRound (turn r) id := by
  constructor
  · intro s p h
    rw [turn] at h
    split at h
    · cases h
    · rename_i s' hdecode
      split at h
      · cases h
      · cases h
        exact ⟨s', s'.stream, hdecode, .inl rfl, .inl rfl⟩
      · split at h
        · cases h
        · rename_i htranscript
          cases h
          exact ⟨s', _, hdecode, Conversation.transcript_inv htranscript, .inr rfl⟩
  · intro s e h
    rw [turn] at h
    split at h
    · rename_i hdecode
      cases h
      exact .inl ⟨_, hdecode⟩
    · rename_i s' hdecode
      refine .inr ⟨s', hdecode, ?_⟩
      split at h
      · rename_i hend
        cases h
        exact .inl hend
      · cases h
      · split at h
        · rename_i htranscript
          cases h
          exact .inr ⟨_, htranscript⟩
        · cases h

/-- The utterances that some turns give out, and the last one if the turns went through. -/
def concluded (r : Recognizer σ S) (isOnly : Bool)
    (p : List (Transcript S) × Except Fault (Session σ S)) : Utterances S :=
  match p.2 with
  | .error f => { found := p.1, fault := some f }
  | .ok s =>
    let last := lastUtterance r (isOnly && p.1.isEmpty) s.stream
    { last with found := p.1 ++ last.found }

omit [Zero S] [Add S] [Sub S] [LogScale S] in
theorem concluded_nil (isOnly : Bool) (s : Session σ S) :
    concluded r isOnly ([], .ok s) = lastUtterance r isOnly s.stream := by
  rw [concluded, List.isEmpty_nil, Bool.and_true]
  rfl

omit [Zero S] [Add S] [Sub S] [LogScale S] in
/-- After an utterance has been given out, the last one is not the only one. -/
theorem concluded_cons (isOnly : Bool) (t : Transcript S)
    (p : List (Transcript S) × Except Fault (Session σ S)) :
    concluded r isOnly (t :: p.1, p.2) =
      { concluded r false p with found := t :: (concluded r false p).found } := by
  rw [concluded, concluded]
  cases p.2 with
  | error f => rfl
  | ok s => rw [List.isEmpty_cons, Bool.and_false, Bool.false_and]; rfl

theorem utterances_eq (n : Nat) (isOnly : Bool) (s : Session σ S) :
    utterances r n isOnly s = concluded r isOnly (roundsWhileReady r (turn r) n s) := by
  induction n generalizing isOnly s with
  | zero => exact (concluded_nil isOnly s).symm
  | succ n ih =>
      rw [utterances, roundsWhileReady, turn]
      cases r.isReady s.stream with
      | false => exact (concluded_nil isOnly s).symm
      | true =>
          simp only [Bool.not_true, Bool.false_eq_true, if_false, if_true]
          cases r.decode s with
          | error f s' => rfl
          | ok _ s' =>
              dsimp only
              cases r.isEndpoint s'.stream with
              | error f => rfl
              | ok isOver =>
                  cases isOver with
                  | false => exact ih isOnly s'
                  | true =>
                      dsimp only
                      cases r.transcript s'.stream with
                      | error f st => rfl
                      | ok t st =>
                          dsimp only
                          cases t.text == "" with
                          | true => exact ih isOnly _
                          | false =>
                              simp only [Bool.false_eq_true, if_false, ih]
                              exact (concluded_cons isOnly t _).symm

end CommandLine

open Conversation CommandLine in
/-- Both loops make a known number of rounds, whatever has been called for the stream before: one
for every offset, or part of one, that the frames reach beyond the next window. The bound that the
loops are run with is no smaller. There is a window before each round and none after the last, and
the rounds go through unless a call in one of them fails. It makes no difference where the endpoint
rules end an utterance. -/
theorem loops_counted (r : Recognizer σ S) (hbins : r.frontEnd.HasBins)
    (hsegment : 0 ≤ r.model.segment) (hoffset : 1 ≤ r.model.offset) {st : Stream S}
    (hst : r.newStream = .ok st) (network : σ) (calls : List (Call S)) :
    let s := calls.foldl (Call.perform r) ⟨network, st⟩
    let beyond : Int := s.stream.extractor.ready - r.model.segment - s.stream.position
    ∃ k : Nat, (k : Int) = max 0 ⌈(beyond : ℚ) / r.model.offset⌉ ∧ k ≤ r.windowsLeft s.stream ∧
      (∀ n, outcome (decodeAvailable r n [] s) =
        gathered (rounds (Conversation.pass r) (min n k) s)) ∧
      (∀ n isOnly, utterances r n isOnly s = concluded r isOnly (rounds (turn r) (min n k) s)) ∧
      r.Counted (Conversation.pass r) s k ∧ r.Counted (turn r) s k := by
  intro s beyond
  have hs : r.Underway s.stream :=
    underway_perform_all (Int.le_trans (by decide) hoffset) calls (underway_newStream hst)
  refine ⟨r.roundsLeft s.stream, ?_, Recognizer.roundsLeft_le hoffset, fun n => ?_,
    fun n isOnly => ?_, ?_, ?_⟩
  · rw [Recognizer.roundsLeft, ← Int.ceil_toNat, Int.toNat_eq_max, max_comm]
  · rw [outcome_decodeAvailable, roundsWhileReady_eq hoffset (isRound_pass r)]
  · rw [utterances_eq, roundsWhileReady_eq hoffset (isRound_turn r)]
  · exact counted_rounds hbins hsegment hoffset (isRound_pass r) hs
  · exact counted_rounds hbins hsegment hoffset (isRound_turn r) hs

end

/-- A recognizer whose endpoint rules ask for no silence and no length. -/
noncomputable def hasty : Recognizer Unit ℝ where
  model := steadily.model
  symbols := steadily.symbols
  frontEnd := { steadily.frontEnd with window := 400, shift := 160 }
  method := steadily.method
  endpoints := some (.ofThresholds 0 0 0)
  frameShift := 0.01

theorem hasty_dependable : hasty.Dependable 2 where
  layout := steadily_dependable.layout
  check := steadily_dependable.check
  segment := steadily_dependable.segment
  room := steadily_dependable.room
  states := steadily_dependable.states
  networks := steadily_dependable.networks
  encode := steadily_dependable.encode
  symbols := steadily_dependable.symbols
  graph := steadily_dependable.graph

theorem hasty_isEndpoint (st : Stream ℝ) (f : Fault) : hasty.isEndpoint st ≠ .error f := by
  intro h
  change EndpointConfig.isEndpoint _ _ _ _ = _ at h
  simp only [EndpointConfig.isEndpoint, timeOf_eq_ok] at h
  cases h

theorem hasty_overlapping : hasty.frontEnd.Overlapping := ⟨by decide, by decide⟩

open Conversation CommandLine in
theorem loops_counted_ending :
    let silence : Argument ℝ := Audio.Extractor.asArray (List.replicate 4720 0)
    ∃ st, hasty.newStream = .ok st ∧
      let s := [Call.accept 16000 silence].foldl (Call.perform hasty) ⟨(), st⟩
      (∃ events s', rounds (Conversation.pass hasty) 5 s = (events, .ok s') ∧
        hasty.isReady s'.stream = false ∧ outcome (decodeAll hasty s) = .ok (events, s')) ∧
      ∃ found s', rounds (turn hasty) 5 s = (found, .ok s') ∧ hasty.isReady s'.stream = false ∧
        utterances hasty (hasty.windowsLeft s.stream) true s =
          concluded hasty true (found, .ok s') := by
  have hlength : (List.replicate 4720 (0 : ℝ)).length = 4720 := List.length_replicate
  generalize List.replicate 4720 (0 : ℝ) = zeros at hlength
  intro silence
  obtain ⟨st, hst, hsound⟩ := newStream_eq_ok hasty_dependable
  obtain ⟨k, hk, hbound, hpasses, hturns, hpass, hturn⟩ :=
    loops_counted hasty (fun _ => ⟨by decide, by decide⟩) (by decide) (by decide) hst ()
      [.accept 16000 silence]
  refine ⟨st, hst, ?_⟩
  generalize hs : [Call.accept 16000 silence].foldl (Call.perform hasty) ⟨(), st⟩ = s at *
  obtain rfl : { search := hasty.freshSearch } = st := Except.ok.inj hst
  have hstream : s.stream =
      { search := hasty.freshSearch
        extractor :=
          Audio.Extractor.taken hasty.frontEnd zeros { rate := some 16000 } } := by
    have haccept : (Audio.Extractor.accept hasty.frontEnd 16000 silence {}).2 = .ok ()
        (Audio.Extractor.taken hasty.frontEnd zeros { rate := some 16000 }) :=
      (Audio.Extractor.accept_ownRate rfl (.inl rfl) zeros).trans
        (Audio.Extractor.compute_of_check zeros hasty_overlapping rfl)
    rw [← hs]
    simp only [List.foldl, Call.perform, Stream.accept, haccept]
    rfl
  have hframes : s.stream.extractor.ready = 28 := by
    rw [hstream, Audio.Extractor.ready, Audio.Extractor.taken]
    simp only [List.nil_append, List.length_map, Audio.Extractor.length_windows, hlength]
    change Audio.Extractor.complete 400 160 4720 = 28
    decide
  have hposition : s.stream.position = 0 := hstream ▸ rfl
  rw [show hasty.freshSearch = s.stream.search from hstream ▸ rfl] at hsound
  obtain rfl : k = 5 := by
    have hceil : ⌈(((28 : Nat) - hasty.model.segment - 0 : Int) : ℚ) / hasty.model.offset⌉ = 5 := by
      change ⌈((20 : Int) : ℚ) / ((4 : Int) : ℚ)⌉ = 5
      norm_num
    rw [hframes, hposition, hceil] at hk
    omega
  obtain ⟨s', hlast, hready⟩ := hpass.eq_ok hasty_dependable (by decide) (isRound_pass hasty)
    hasty_isEndpoint hposition.ge hsound
  obtain ⟨s'', hlast', hready'⟩ := hturn.eq_ok hasty_dependable (by decide) (isRound_turn hasty)
    hasty_isEndpoint hposition.ge hsound
  refine ⟨⟨_, s', hlast, hready, ?_⟩, _, s'', hlast', hready', ?_⟩
  · rw [decodeAll, hpasses, min_eq_right hbound, hlast]
    rfl
  · rw [hturns, min_eq_right hbound, hlast']

end SpeechTransducer
