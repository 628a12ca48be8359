import SpeechTransducer.Proofs.CommandLine.Turns
import SpeechTransducer.Proofs.Conversation.AtOnce

/-!
The command line and a conversation find the same utterances in the same audio. The recording with
its silence gives the frames that the messages give, and a turn gives out what a pass tells of an
utterance that is over. They differ in what they leave out: the command line has no text that is
empty, unless there is no other.
-/

namespace SpeechTransducer

variable {σ S : Type}

/-- The text of a finished utterance. -/
def Conversation.Event.finalText? : Conversation.Event S → Option String
  | .final text _ => some text
  | _ => none

theorem Conversation.filterMap_finalText?_told (events : List (Conversation.Event S)) :
    (events.filter Event.isNews).filterMap Event.finalText? =
      events.filterMap Event.finalText? := by
  rw [List.filterMap_filter]
  refine List.filterMap_congr fun event _ => ?_
  cases event <;> rfl

variable [Zero S] [Add S] [Sub S] [BEq S] [LT S] [DecidableLT S] [LE S] [DecidableLE S]
variable [LogScale S] [Countable S] [HMul Int S S] {r : Recognizer σ S} {s s' : Session σ S}

namespace CommandLine

open Conversation

omit [Zero S] [Add S] [Sub S] [LogScale S] in
/-- A transcript leaves the stream of an utterance that is not over as it is. -/
theorem transcript_of_not_over {st st' : Stream S} {t : Transcript S}
    (hover : r.isEndpoint st = .ok false) (h : r.transcript st = .ok t st') : st' = st := by
  rw [Recognizer.transcript, hover] at h
  simp only [Bool.false_eq_true, if_false] at h
  split at h
  · cases h
  · cases h
    rfl

/-- A turn goes where a pass goes, and gives out the texts that the pass tells as final. -/
theorem turn_of_pass {p : List (Event S) × Session σ S} (h : Conversation.pass r s = .ok p) :
    ∃ found, turn r s = .ok (found, p.2) ∧
      found.map (·.text) = p.1.filterMap Event.finalText? ∧ ∀ t ∈ found, t.text ≠ "" := by
  rw [Conversation.pass] at h
  split at h
  · cases h
  · rename_i s' hdecode
    split at h
    · cases h
    · rename_i isOver hover
      split at h
      · cases h
      · rename_i t st htranscript
        cases h
        rw [turn, hdecode]
        cases isOver with
        | false =>
            obtain rfl := transcript_of_not_over hover htranscript
            simp only [hover]
            refine ⟨[], rfl, ?_, by simp⟩
            rw [eventsOf]
            split <;> rfl
        | true =>
            simp only [hover, htranscript]
            refine ⟨_, rfl, ?_, ?_⟩
            · rw [eventsOf]
              split <;> rfl
            · intro t' ht'
              split at ht'
              · cases ht'
              · rename_i hne
                obtain rfl := List.mem_singleton.mp ht'
                simpa using hne

theorem turns_of_passes {n : Nat} (h : (rounds (Conversation.pass r) n s).2 = .ok s') :
    (rounds (turn r) n s).2 = .ok s' ∧
      (rounds (turn r) n s).1.map (·.text) =
        (rounds (Conversation.pass r) n s).1.filterMap Event.finalText? ∧
      ∀ t ∈ (rounds (turn r) n s).1, t.text ≠ "" := by
  induction n generalizing s with
  | zero =>
      cases h
      exact ⟨rfl, rfl, by simp [rounds]⟩
  | succ n ih =>
      rw [rounds] at h
      cases hpass : Conversation.pass r s with
      | error e =>
          rw [hpass] at h
          cases h
      | ok p =>
          rw [hpass] at h
          obtain ⟨found, hturn, htexts, hne⟩ := turn_of_pass hpass
          obtain ⟨hend, hmore, hmore'⟩ := ih h
          rw [rounds, rounds, hturn, hpass]
          refine ⟨hend, ?_, ?_⟩
          · rw [List.map_append, List.filterMap_append, htexts, hmore]
          · intro t ht
            obtain ht | ht := List.mem_append.mp ht
            · exact hne t ht
            · exact hmore' t ht

/-- The texts that stand for some utterances: those that are not empty, or a single empty one. -/
def reported (texts : List String) : List String :=
  let spoken := texts.filter (· ≠ "")
  if spoken = [] then [""] else spoken

omit [Zero S] [Add S] [Sub S] [LogScale S] in
/-- The last utterance is told in any case, and given out if it has a text or is the only one. -/
theorem concluded_texts {found : List (Transcript S)} {st : Stream S} {t : Transcript S}
    (hfound : ∀ t ∈ found, t.text ≠ "") (h : r.transcript s.stream = .ok t st) :
    (concluded r true (found, .ok s)).fault = none ∧
      (concluded r true (found, .ok s)).found.map (·.text) =
        reported (found.map (·.text) ++ [t.text]) := by
  have hspoken : (found.map (·.text)).filter (· ≠ "") = found.map (·.text) := by
    rw [List.filter_eq_self]
    simpa using hfound
  simp only [concluded, lastUtterance, h, reported]
  rw [List.filter_append, hspoken]
  by_cases htext : t.text = ""
  -- An empty text counts only if nothing has been given out before.
  · cases found with
    | nil => simp [htext]
    | cons first found => simp [htext]
  · simp [htext]

theorem utterances_eq_concluded (hoffset : 1 ≤ r.model.offset) (s : Session σ S) :
    utterances r (r.windowsLeft s.stream) true s =
      concluded r true (rounds (turn r) (r.roundsLeft s.stream) s) := by
  rw [utterances_eq, roundsWhileReady_eq hoffset (isRound_turn r),
    min_eq_right (Recognizer.roundsLeft_le hoffset)]

/-- A conversation goes through its passes, and then tells the last utterance. -/
theorem drain_told_eq (hoffset : 1 ≤ r.model.offset) (s : Session σ S) :
    drain r s >>= told r =
      match (rounds (Conversation.pass r) (r.roundsLeft s.stream) s).2 with
      | .error e => .error e
      | .ok s' => told r ((rounds (Conversation.pass r) (r.roundsLeft s.stream) s).1, s') := by
  rw [drain, decodeAll, outcome_decodeAvailable, roundsWhileReady_eq hoffset (isRound_pass r),
    min_eq_right (Recognizer.roundsLeft_le hoffset), gathered]
  cases (rounds (Conversation.pass r) (r.roundsLeft s.stream) s).2 with
  | error e => rfl
  | ok s' => rfl

/-- When a conversation goes through, so does the command line, with the same texts. -/
theorem utterances_of_told (hoffset : 1 ≤ r.model.offset) {q : List (Event S) × σ}
    (h : drain r s >>= told r = .ok q) :
    (utterances r (r.windowsLeft s.stream) true s).fault = none ∧
      (utterances r (r.windowsLeft s.stream) true s).found.map (·.text) =
        reported (q.1.filterMap Event.finalText?) := by
  rw [utterances_eq_concluded hoffset]
  rw [drain_told_eq hoffset] at h
  cases hpasses : (rounds (Conversation.pass r) (r.roundsLeft s.stream) s).2 with
  | error e =>
      rw [hpasses] at h
      cases h
  | ok s' =>
      obtain ⟨hturns, htexts, hne⟩ := turns_of_passes hpasses
      rw [hpasses] at h
      dsimp only [told] at h
      cases htranscript : r.transcript s'.stream with
      | error f st =>
          rw [htranscript] at h
          cases h
      | ok t st =>
          rw [htranscript] at h
          cases h
          rw [List.filterMap_append, filterMap_finalText?_told, ← htexts]
          have hrounds : rounds (turn r) (r.roundsLeft s.stream) s =
              ((rounds (turn r) (r.roundsLeft s.stream) s).1, .ok s') := Prod.ext rfl hturns
          rw [hrounds]
          exact concluded_texts hne htranscript

/-- With a recognizer that has all it needs, a pass fails where a turn fails too. -/
theorem turn_of_pass_error {vocabulary : Nat} (hr : r.Dependable vocabulary)
    (hpos : 0 ≤ s.stream.position) (hready : r.isReady s.stream = true)
    (hsound : r.method.Sound r.model.toNetwork vocabulary r.graph s.stream.search)
    {e : Fault × σ} (h : Conversation.pass r s = .error e) :
    turn r s = .error e.1 ∧ ∃ st, r.isEndpoint st = .error e.1 := by
  have hfails : r.Fails s e.1 := by
    obtain ⟨_, hdecode⟩ | ⟨_, hdecode, hend | ⟨_, hend⟩⟩ := (isRound_pass r).fails s e h
    · obtain ⟨_, _, hdecode', -⟩ := decode_yields hr hpos hready hsound
      rw [hdecode'] at hdecode
      cases hdecode
    · exact .endpoint hdecode hend
    · exact .transcript hdecode hend
  obtain ⟨s', hdecode, hend⟩ := fails_of_dependable hr hpos hready hsound hfails
  refine ⟨?_, _, hend⟩
  rw [turn, hdecode]
  simp only [hend]

/-- When a conversation fails with a recognizer that has all it needs, so does the command line. -/
theorem utterances_of_failed {vocabulary : Nat} (hr : r.Dependable vocabulary)
    (hoffset : 1 ≤ r.model.offset) (hpos : 0 ≤ s.stream.position)
    (hsound : r.method.Sound r.model.toNetwork vocabulary r.graph s.stream.search)
    {e : Fault × σ} (h : drain r s >>= told r = .error e) :
    (utterances r (r.windowsLeft s.stream) true s).fault = some e.1 ∧
      ∃ st, r.isEndpoint st = .error e.1 := by
  have hoffset' : 0 ≤ r.model.offset := Int.le_trans (by decide) hoffset
  rw [utterances_eq_concluded hoffset]
  rw [drain_told_eq hoffset] at h
  cases hpasses : (rounds (Conversation.pass r) (r.roundsLeft s.stream) s).2 with
  | error e' =>
      rw [hpasses] at h
      cases h
      -- The passes before the one that fails are turns too, so the turns get as far as it.
      obtain ⟨m, hm, s', hreached, hfailed⟩ := rounds_error_iff.mp hpasses
      have hsound' := rounds_sound hr hoffset' (isRound_pass r) hpos hsound hreached
      have hpos' := rounds_position_nonneg hoffset' (isRound_pass r) hpos hreached
      have hready := (isReady_rounds hoffset (isRound_pass r) hreached).mpr hm
      obtain ⟨hturn, hend⟩ := turn_of_pass_error hr hpos' hready hsound' hfailed
      have hturns : (rounds (turn r) (r.roundsLeft s.stream) s).2 = .error e.1 :=
        rounds_error_iff.mpr ⟨m, hm, s', (turns_of_passes hreached).1, hturn⟩
      refine ⟨?_, hend⟩
      rw [concluded, hturns]
  | ok s' =>
      obtain ⟨hturns, -, -⟩ := turns_of_passes hpasses
      have hsound' := rounds_sound hr hoffset' (isRound_pass r) hpos hsound hpasses
      rw [hpasses] at h
      dsimp only [told] at h
      cases htranscript : r.transcript s'.stream with
      | ok t st =>
          rw [htranscript] at h
          cases h
      | error f st =>
          rw [htranscript] at h
          cases h
          refine ⟨?_, _, isEndpoint_of_transcript_error hr hsound' htranscript⟩
          rw [concluded, hturns]
          simp only [lastUtterance, htranscript]

section

variable {said : Said σ S} (hsaid : said.outcome = drain r s >>= told r)
variable (hoffset : 1 ≤ r.model.offset)

include hsaid hoffset

theorem utterances_of_fault_none (hnone : said.fault = none) :
    (utterances r (r.windowsLeft s.stream) true s).fault = none ∧
      (utterances r (r.windowsLeft s.stream) true s).found.map (·.text) =
        reported (said.events.filterMap Event.finalText?) := by
  rw [Said.outcome, hnone] at hsaid
  obtain ⟨hfault, htexts⟩ := utterances_of_told hoffset hsaid.symm
  refine ⟨hfault, htexts.trans ?_⟩
  rw [Said.told, filterMap_finalText?_told]

theorem utterances_fault {vocabulary : Nat} (hr : r.Dependable vocabulary)
    (hpos : 0 ≤ s.stream.position)
    (hsound : r.method.Sound r.model.toNetwork vocabulary r.graph s.stream.search) :
    (utterances r (r.windowsLeft s.stream) true s).fault = said.fault ∧
      ∀ f ∈ said.fault, ∃ st, r.isEndpoint st = .error f := by
  cases hfault : said.fault with
  | none => exact ⟨(utterances_of_fault_none hsaid hoffset hfault).1, fun f hf => by cases hf⟩
  | some f =>
      obtain ⟨network, hfailed⟩ := fault_eq_some_iff.mp hfault
      have hlast := hsaid.symm.trans hfailed
      obtain ⟨hgiven, hend⟩ := utterances_of_failed hr hoffset hpos hsound hlast
      exact ⟨hgiven, fun f' hf' => Option.some.inj hf' ▸ hend⟩

end

omit [Zero S] [Add S] [Sub S] [BEq S] [LT S] [DecidableLT S] [LE S] [DecidableLE S] [LogScale S]
  [Countable S] [HMul Int S S] in
theorem accept_attending {st : Stream S} (h : Attending r st) (values : List S) :
    ∃ warnings, st.accept r.frontEnd r.frontEnd.rate (Audio.Extractor.asArray values) =
      (warnings, st.withExtractor (Audio.Extractor.compute r.frontEnd values (rated r st))) := by
  have hrate : st.extractor.rate = none ∨ st.extractor.rate = some r.frontEnd.rate := by
    cases hrate : st.extractor.rate with
    | none => exact .inl rfl
    | some rate => exact .inr (congrArg some (h.rate rate hrate))
  have haccept : (st.extractor.accept r.frontEnd r.frontEnd.rate
      (Audio.Extractor.asArray values)).2 = _ :=
    Audio.Extractor.accept_ownRate h.unfinished hrate values
  rw [Stream.accept]
  exact ⟨_, congrArg (fun result => (_, st.withExtractor result)) haccept⟩

omit [BEq S] [LE S] [DecidableLE S] [Countable S] [HMul Int S S] in
/-- A recording and its silence give the frames of both in one. -/
theorem recorded_eq (hfe : r.frontEnd.Overlapping) (hs : r.newStream = .ok s.stream) (tail : Nat)
    (values : List S) :
    (recorded r tail values).2 =
      ((rated r s.stream).grow r.frontEnd (values ++ List.replicate tail 0)).map fun x =>
        (s.reseat (closed x)).stream := by
  have h := attending_newStream hs
  obtain ⟨warnings, hvalues⟩ := accept_attending h values
  rw [Audio.Extractor.asArray] at hvalues
  rw [Audio.Extractor.grow_append hfe, Audio.Extractor.grow]
  cases hcompute : Audio.Extractor.compute r.frontEnd values (rated r s.stream) with
  | error f x =>
      rw [hcompute] at hvalues
      simp only [recorded, hs, hvalues, Stream.withExtractor]
      rfl
  | ok _ x =>
      have hgrow : (rated r s.stream).grow r.frontEnd values = .ok x := by
        rw [Audio.Extractor.grow, hcompute]
      obtain ⟨hx, -, hrate⟩ := h.reseat hgrow
      obtain ⟨warnings', hzeros⟩ := accept_attending hx (List.replicate tail 0)
      have hrated : rated r (s.reseat x).stream = x := by
        rw [rated, ← hrate]
        rfl
      rw [Audio.Extractor.asArray, hrated] at hzeros
      rw [hcompute] at hvalues
      have hseated : ({ s.stream with extractor := x } : Stream S) = (s.reseat x).stream := rfl
      simp only [recorded, hs, hvalues, Stream.withExtractor, hseated, hzeros]
      change _ = (x.grow r.frontEnd (List.replicate tail 0)).map _
      rw [Audio.Extractor.grow]
      cases hcompute' : Audio.Extractor.compute r.frontEnd (List.replicate tail 0) x with
      | error f y => rfl
      | ok _ y =>
          have hgrow' : (rated r (s.reseat x).stream).grow r.frontEnd (List.replicate tail 0) =
              .ok y := by
            rw [hrated, Audio.Extractor.grow, hcompute']
          have hfinish : Stream.finish r.frontEnd { (s.reseat x).stream with extractor := y } =
              .ok () (s.reseat (closed y)).stream :=
            finish_eq (hx.reseat hgrow').1
          dsimp only
          rw [hfinish]
          rfl

theorem transcribe_eq (hfe : r.frontEnd.Overlapping) (hs : r.newStream = .ok s.stream) (tail : Nat)
    (values : List S) :
    (transcribe r s.network tail values).2 =
      match (rated r s.stream).grow r.frontEnd (values ++ List.replicate tail 0) with
      | .error f => { fault := some f }
      | .ok x =>
        utterances r (r.windowsLeft (s.reseat (closed x)).stream) true (s.reseat (closed x)) := by
  have hrecorded := recorded_eq hfe hs tail values
  rw [transcribe]
  cases hresult : recorded r tail values with
  | mk warnings result =>
      rw [hresult] at hrecorded
      obtain rfl := hrecorded
      cases (rated r s.stream).grow r.frontEnd (values ++ List.replicate tail 0) with
      | error f => rfl
      | ok x => rfl

end CommandLine

open Conversation CommandLine in
/-- The command line gives out the texts that a conversation tells as final, when both have the same
audio: those that are not empty, or a single empty one. The recording is followed by silence of any
length; the peer sends both as 16-bit samples, cut into messages anywhere. With a recognizer that
has all it needs one goes through if the other does, and only the endpoint rules can fail. -/
theorem transcribe_converse (r : Recognizer σ S) (network : σ) (hfe : r.frontEnd.Overlapping)
    (hoffset : 1 ≤ r.model.offset) (hsegment : 0 ≤ r.model.segment)
    (hzero : r.frontEnd.sample 0 = 0) (samples : List Int)
    (hsamples : ∀ n ∈ samples, Audio.Wave.InRange n) (tail : Nat)
    (messages : List (List UInt8)) (hne : [] ∉ messages)
    (hbytes : messages.flatten = Audio.Wave.pcm (samples ++ List.replicate tail 0)) :
    let given := (transcribe r network tail (samples.map r.frontEnd.sample)).2
    let said := converse r network (messages ++ [[]])
    (said.fault = none → given.fault = none ∧
      given.found.map (·.text) = reported (said.events.filterMap Event.finalText?)) ∧
    ∀ vocabulary, r.Dependable vocabulary → given.fault = said.fault ∧
      ∀ f ∈ said.fault, ∃ st, r.isEndpoint st = .error f := by
  intro given said
  have hall : ∀ n ∈ samples ++ List.replicate tail 0, Audio.Wave.InRange n := by
    intro n hn
    obtain hn | hn := List.mem_append.mp hn
    · exact hsamples n hn
    · obtain rfl := List.eq_of_mem_replicate hn
      exact ⟨by decide, by decide⟩
  have hvalues : (samples ++ List.replicate tail 0).map r.frontEnd.sample =
      samples.map r.frontEnd.sample ++ List.replicate tail 0 := by
    rw [List.map_append, List.map_replicate, hzero]
  cases hstream : r.newStream with
  | error f =>
      have hgiven : given.fault = some f := by
        simp only [given, transcribe, CommandLine.recorded, hstream]
      have hsaid : said.fault = some f := by
        simp only [said, converse, hstream]
      refine ⟨fun hnone => ?_, fun vocabulary hr => ?_⟩
      · rw [hsaid] at hnone
        cases hnone
      · obtain ⟨st, hst, -⟩ := newStream_eq_ok hr
        rw [hst] at hstream
        cases hstream
  | ok st =>
      let s : Session σ S := ⟨network, st⟩
      have h : Attending r s.stream := attending_newStream hstream
      have hsaid : said.outcome = _ :=
        converse_atOnce hfe hoffset hsegment hstream network hall hne hbytes
      have hgiven : given = _ := transcribe_eq (s := s) hfe hstream tail _
      rw [hvalues, absorb_told hoffset hsegment h.position] at hsaid
      cases hgrow : (rated r s.stream).grow r.frontEnd
          (samples.map r.frontEnd.sample ++ List.replicate tail 0) with
      | error f =>
          rw [hgrow] at hsaid
          refine ⟨fun hnone => ?_, fun vocabulary hr => ?_⟩
          · rw [Said.outcome, hnone] at hsaid
            cases hsaid
          · exact absurd hr.check (Audio.Extractor.check_of_grow_error hfe hgrow)
      | ok x =>
          rw [hgrow] at hsaid hgiven
          rw [hgiven]
          refine ⟨utterances_of_fault_none hsaid hoffset, fun vocabulary hr => ?_⟩
          obtain ⟨st', hst', hsound⟩ := newStream_eq_ok hr
          obtain rfl := Except.ok.inj (hst'.symm.trans hstream)
          exact utterances_fault hsaid hoffset hr h.position hsound

open Conversation CommandLine in
theorem transcribe_converse_every_byte :
    let samples := (List.range 9000).map fun n : Nat => (n : Int) - 4500
    let bytes := Audio.Wave.pcm (samples ++ List.replicate 4800 0)
    let given := (transcribe hasty () 4800 (samples.map hasty.frontEnd.sample)).2
    let said := converse hasty () (bytes.map (fun byte => [byte]) ++ [[]])
    said.fault = none ∧ given.fault = none ∧
      given.found.map (·.text) = reported (said.events.filterMap Event.finalText?) := by
  intro samples bytes given said
  have hzero : hasty.frontEnd.sample 0 = 0 := by
    change ((0 : Int) : ℝ) / 32768 = 0
    norm_num
  have hsamples : ∀ n ∈ samples, Audio.Wave.InRange n := by
    intro n hn
    obtain ⟨k, hk, rfl⟩ := List.mem_map.mp hn
    have hlt : k < 9000 := List.mem_range.mp hk
    exact ⟨by omega, by omega⟩
  have hne : [] ∉ bytes.map fun byte => [byte] := by simp
  have hbytes : (bytes.map fun byte => [byte]).flatten = bytes := by
    rw [← List.flatMap_def, List.flatMap_singleton']
  obtain ⟨hagree, hfault⟩ := transcribe_converse hasty () hasty_overlapping (by decide)
    (by decide) hzero samples hsamples 4800 (bytes.map fun byte => [byte]) hne hbytes
  have hnone : said.fault = none := by
    rw [Option.eq_none_iff_forall_not_mem]
    intro f hf
    obtain ⟨st, hend⟩ := (hfault 2 hasty_dependable).2 f hf
    exact hasty_isEndpoint st f hend
  exact ⟨hnone, hagree hnone⟩

end SpeechTransducer
