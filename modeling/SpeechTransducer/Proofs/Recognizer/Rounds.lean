import Mathlib.Data.Rat.Floor
import SpeechTransducer.Proofs.Recognizer.Speech

/-!
Loops over the windows of a stream. Whatever a round gives out, it decodes one window and takes the
stream one offset further, so the number of rounds is known before the first of them. A new
utterance changes from where frames are counted, and with that both sides of the test for another
window, but it does not change the position in the stream.
-/

namespace SpeechTransducer

variable {σ S ε α : Type}

/-- So many rounds, whether or not there are windows for them: what they give out, and the session
after the last one or the failure that ended them. -/
def rounds (round : Session σ S → Except ε (List α × Session σ S)) :
    Nat → Session σ S → List α × Except ε (Session σ S)
  | 0, s => ([], .ok s)
  | n + 1, s =>
    match round s with
    | .error e => ([], .error e)
    | .ok (given, s) => (given ++ (rounds round n s).1, (rounds round n s).2)

/-- The rounds that a stream has windows for, so many of them at most. -/
def roundsWhileReady (r : Recognizer σ S) (round : Session σ S → Except ε (List α × Session σ S)) :
    Nat → Session σ S → List α × Except ε (Session σ S)
  | 0, s => ([], .ok s)
  | n + 1, s =>
    if r.isReady s.stream then
      match round s with
      | .error e => ([], .error e)
      | .ok (given, s) =>
        (given ++ (roundsWhileReady r round n s).1, (roundsWhileReady r round n s).2)
    else ([], .ok s)

section

variable {round : Session σ S → Except ε (List α × Session σ S)} {s s' : Session σ S} {n : Nat}

/-- What every round keeps holds after all of them. -/
theorem rounds_keep {P : Session σ S → Prop} (hround : ∀ s p, P s → round s = .ok p → P p.2)
    (hs : P s) (h : (rounds round n s).2 = .ok s') : P s' := by
  induction n generalizing s with
  | zero =>
      cases h
      exact hs
  | succ n ih =>
      rw [rounds] at h
      cases hfirst : round s with
      | error e =>
          rw [hfirst] at h
          cases h
      | ok p =>
          rw [hfirst] at h
          exact ih (hround s p hs hfirst) h

/-- Rounds fail if one of them does, after those before have gone through. -/
theorem rounds_error_iff {e : ε} :
    (rounds round n s).2 = .error e ↔
      ∃ m < n, ∃ s', (rounds round m s).2 = .ok s' ∧ round s' = .error e := by
  induction n generalizing s with
  | zero => simp [rounds]
  | succ n ih =>
      rw [rounds]
      cases hfirst : round s with
      | error e' =>
          constructor
          · rintro ⟨⟩
            exact ⟨0, Nat.succ_pos n, s, rfl, hfirst⟩
          · rintro ⟨m, -, s', hreached, hfailed⟩
            cases m with
            | zero =>
                cases hreached
                rw [hfirst] at hfailed
                cases hfailed
                rfl
            | succ m =>
                rw [rounds, hfirst] at hreached
                cases hreached
      | ok p =>
          dsimp only
          rw [ih]
          constructor
          · rintro ⟨m, hm, s', hreached, hfailed⟩
            refine ⟨m + 1, Nat.succ_lt_succ hm, s', ?_, hfailed⟩
            rw [rounds, hfirst]
            exact hreached
          · rintro ⟨m, hm, s', hreached, hfailed⟩
            cases m with
            | zero =>
                cases hreached
                rw [hfirst] at hfailed
                cases hfailed
            | succ m =>
                rw [rounds, hfirst] at hreached
                exact ⟨m, Nat.lt_of_succ_lt_succ hm, s', hreached, hfailed⟩

end

namespace Recognizer

/-- How many windows a stream has left. -/
def roundsLeft (r : Recognizer σ S) (st : Stream S) : Nat :=
  ⌈((st.extractor.ready - r.model.segment - st.position : Int) : ℚ) / r.model.offset⌉₊

variable {r : Recognizer σ S} {st st' : Stream S} {n : Nat}

theorem lt_roundsLeft (hoffset : 1 ≤ r.model.offset) :
    n < r.roundsLeft st ↔
      st.position + n * r.model.offset + r.model.segment < st.extractor.ready := by
  have hpos : (0 : ℚ) < r.model.offset := by exact_mod_cast hoffset
  rw [roundsLeft, Nat.lt_ceil, lt_div_iff₀ hpos]
  norm_cast
  omega

theorem isReady_iff_roundsLeft (hoffset : 1 ≤ r.model.offset) :
    r.isReady st = true ↔ 0 < r.roundsLeft st := by
  rw [Conversation.isReady_iff, lt_roundsLeft hoffset]
  simp

theorem roundsLeft_eq_zero (hoffset : 1 ≤ r.model.offset) (h : r.isReady st = false) :
    r.roundsLeft st = 0 := by
  rw [Bool.eq_false_iff, ne_eq, isReady_iff_roundsLeft hoffset] at h
  exact Nat.eq_zero_of_not_pos h

/-- A round uses up one window. -/
theorem roundsLeft_eq_succ (hoffset : 1 ≤ r.model.offset) (hready : r.isReady st = true)
    (hx : st'.extractor = st.extractor) (hposition : st'.position = st.position + r.model.offset) :
    r.roundsLeft st = r.roundsLeft st' + 1 := by
  refine eq_of_forall_lt_iff fun n => ?_
  rw [lt_roundsLeft hoffset]
  cases n with
  | zero =>
      rw [Conversation.isReady_iff] at hready
      simpa using hready
  | succ n =>
      rw [Nat.add_lt_add_iff_right, lt_roundsLeft hoffset, hx, hposition, Int.natCast_add,
        Int.natCast_one, Int.add_mul, Int.one_mul]
      omega

theorem roundsLeft_le (hoffset : 1 ≤ r.model.offset) : r.roundsLeft st ≤ r.windowsLeft st := by
  refine le_of_forall_lt fun n hn => ?_
  rw [lt_roundsLeft hoffset] at hn
  have hle : (n : Int) ≤ n * r.model.offset := le_mul_of_one_le_right (Int.natCast_nonneg n) hoffset
  rw [Conversation.windowsLeft_eq]
  omega

/-- What holds of a stream through all calls: none of them goes back, and there are frames only
where the settings describe frames. -/
structure Underway (r : Recognizer σ S) (st : Stream S) : Prop where
  position : 0 ≤ st.position
  frames : st.extractor.frames = [] ∨ r.frontEnd.check = .ok ()

theorem Underway.grow (h : r.Underway st)
    (hframes : Audio.Extractor.Grows r.frontEnd st.extractor.frames st'.extractor.frames) :
    st'.extractor.frames = [] ∨ r.frontEnd.check = .ok () := by
  obtain hsame | hcheck := hframes.check
  · rw [hsame]
    exact h.frames
  · exact .inr hcheck

end Recognizer

section

variable [Zero S] [Add S] [Sub S] [BEq S] [LT S] [DecidableLT S] [LogScale S]

theorem extractor_decode (r : Recognizer σ S) (s : Session σ S) :
    (leftBehind (r.decode s)).stream.extractor = s.stream.extractor := by
  cases hdecode : r.decode s with
  | ok _ s' =>
      obtain ⟨search, states, hs'⟩ := Conversation.decode_inv hdecode
      rw [leftBehind, hs']
  | error f s' =>
      cases hwindow : r.window s.stream with
      | error f =>
          rw [decode_of_unread hwindow] at hdecode
          cases hdecode
          rfl
      | ok features =>
          have hs' := ((decode_of_read hwindow).of_error hdecode).1
          rw [leftBehind, hs']

variable [LE S] [DecidableLE S] [Countable S] [HMul Int S S]

/-- What a round can do, if its failures are read as faults. It decodes a window; then it may close
the utterance, and it may start another. It fails where the decoding fails, or the endpoint rules or
the transcript after it. -/
structure Recognizer.IsRound (r : Recognizer σ S)
    (round : Session σ S → Except ε (List α × Session σ S)) (fault : ε → Fault) : Prop where
  goes_on : ∀ s p, round s = .ok p → ∃ s' st, r.decode s = .ok () s' ∧
    (st = s'.stream ∨ st = s'.stream.finalize) ∧
    (p.2 = { s' with stream := st } ∨ p.2 = { s' with stream := r.restart st })
  fails : ∀ s e, round s = .error e →
    (∃ s', r.decode s = .error (fault e) s') ∨
    ∃ s', r.decode s = .ok () s' ∧
      (r.isEndpoint s'.stream = .error (fault e) ∨
        ∃ st, r.transcript s'.stream = .error (fault e) st)

variable {r : Recognizer σ S} {round : Session σ S → Except ε (List α × Session σ S)}
variable {fault : ε → Fault} {s s' : Session σ S} {n : Nat}

/-- A round leaves the audio as it is, and goes on by the offset of the encoder. -/
theorem Recognizer.IsRound.advance (hround : r.IsRound round fault)
    {p : List α × Session σ S} (h : round s = .ok p) :
    p.2.stream.extractor = s.stream.extractor ∧
      p.2.stream.position = s.stream.position + r.model.offset := by
  obtain ⟨s', st, hdecode, hst, hp⟩ := hround.goes_on s p h
  obtain ⟨search, states, hs'⟩ := Conversation.decode_inv hdecode
  have hx : st.extractor = s.stream.extractor := by
    obtain rfl | rfl := hst <;> rw [hs']
    rfl
  have hposition : st.position = s.stream.position + r.model.offset := by
    obtain rfl | rfl := hst <;> rw [hs'] <;> exact (Int.add_assoc _ _ _).symm
  obtain hp | hp := hp
  · rw [hp]
    exact ⟨hx, hposition⟩
  · have hrestart : (r.restart st).position = st.position := Int.add_zero _
    rw [hp]
    exact ⟨hx, hrestart.trans hposition⟩

theorem rounds_advance (hround : r.IsRound round fault) (h : (rounds round n s).2 = .ok s') :
    s'.stream.extractor = s.stream.extractor ∧
      s'.stream.position = s.stream.position + n * r.model.offset := by
  induction n generalizing s with
  | zero =>
      cases h
      simp
  | succ n ih =>
      rw [rounds] at h
      cases hfirst : round s with
      | error e =>
          rw [hfirst] at h
          cases h
      | ok p =>
          rw [hfirst] at h
          obtain ⟨hx, hposition⟩ := hround.advance hfirst
          obtain ⟨hx', hposition'⟩ := ih h
          refine ⟨hx'.trans hx, ?_⟩
          rw [hposition', hposition, Int.natCast_add, Int.natCast_one, Int.add_mul, Int.one_mul]
          omega

theorem rounds_position_nonneg (hoffset : 0 ≤ r.model.offset) (hround : r.IsRound round fault)
    (hpos : 0 ≤ s.stream.position) (h : (rounds round n s).2 = .ok s') :
    0 ≤ s'.stream.position := by
  have hpassed : 0 ≤ n * r.model.offset := Int.mul_nonneg (Int.natCast_nonneg n) hoffset
  rw [(rounds_advance hround h).2]
  exact Int.add_nonneg hpos hpassed

/-- There is another window as long as fewer rounds have been made than there were windows. -/
theorem isReady_rounds (hoffset : 1 ≤ r.model.offset) (hround : r.IsRound round fault)
    (h : (rounds round n s).2 = .ok s') :
    r.isReady s'.stream = true ↔ n < r.roundsLeft s.stream := by
  obtain ⟨hx, hposition⟩ := rounds_advance hround h
  rw [Conversation.isReady_iff, Recognizer.lt_roundsLeft hoffset, hx, hposition]

/-- A loop that looks for another window before each round makes as many rounds as there are
windows. -/
theorem roundsWhileReady_eq (hoffset : 1 ≤ r.model.offset) (hround : r.IsRound round fault)
    (n : Nat) (s : Session σ S) :
    roundsWhileReady r round n s = rounds round (min n (r.roundsLeft s.stream)) s := by
  induction n generalizing s with
  | zero =>
      rw [Nat.zero_min]
      rfl
  | succ n ih =>
      rw [roundsWhileReady]
      cases hready : r.isReady s.stream with
      | false =>
          rw [Recognizer.roundsLeft_eq_zero hoffset hready, Nat.min_zero]
          rfl
      | true =>
          rw [if_pos rfl]
          cases hfirst : round s with
          | error e =>
              obtain ⟨k, hk⟩ := Nat.exists_eq_succ_of_ne_zero
                ((Recognizer.isReady_iff_roundsLeft hoffset).mp hready).ne'
              rw [hk, Nat.succ_min_succ, rounds, hfirst]
          | ok p =>
              -- The round uses up a window, so both sides of the minimum go down by one.
              obtain ⟨hx, hposition⟩ := hround.advance hfirst
              rw [Recognizer.roundsLeft_eq_succ hoffset hready hx hposition, Nat.succ_min_succ,
                rounds, hfirst]
              dsimp only
              rw [ih]

/-- The calls of a round that can fail: the encoder and the search on the window that has been read,
the endpoint rules, and the transcript. -/
inductive Recognizer.Fails (r : Recognizer σ S) (s : Session σ S) (f : Fault) : Prop
  | encoder {features : Tensor S} {network : σ}
      (read : s.stream.frames r.frontEnd s.stream.processed r.model.segment = .ok features)
      (encode : r.model.encode features s.stream.encoderStates s.network = .error f network)
  | search {features : Tensor S} {out : Argument S} {states : List (Tensor S)} {network : σ}
      {found : Search.Session σ S}
      (read : s.stream.frames r.frontEnd s.stream.processed r.model.segment = .ok features)
      (encode : r.model.encode features s.stream.encoderStates s.network =
        .ok (out, states) network)
      (decode : r.method.decode r.model.toNetwork r.graph out ⟨network, s.stream.search⟩ =
        .error f found)
  | endpoint {s' : Session σ S} (decode : r.decode s = .ok () s')
      (isEndpoint : r.isEndpoint s'.stream = .error f)
  | transcript {s' : Session σ S} {st : Stream S} (decode : r.decode s = .ok () s')
      (transcript : r.transcript s'.stream = .error f st)

/-- So many rounds, and not one more: there is a window before each of them and none after the last,
and they go through unless a call of one of them fails. -/
structure Recognizer.Counted (r : Recognizer σ S)
    (round : Session σ S → Except ε (List α × Session σ S)) (s : Session σ S) (k : Nat) : Prop where
  ready : ∀ m s', (rounds round m s).2 = .ok s' → (r.isReady s'.stream = true ↔ m < k)
  ends : (∀ m < k, ∀ s' f, (rounds round m s).2 = .ok s' → ¬r.Fails s' f) →
    ∃ s', (rounds round k s).2 = .ok s'

omit [BEq S] [LE S] [DecidableLE S] [Countable S] [HMul Int S S] in
theorem underway_newStream {st : Stream S} (h : r.newStream = .ok st) : r.Underway st :=
  ⟨(Conversation.attending_newStream h).position, (Conversation.attending_newStream h).frames⟩

theorem Recognizer.Underway.perform (hoffset : 0 ≤ r.model.offset) (h : r.Underway s.stream)
    (c : Call S) : r.Underway (c.perform r s).stream := by
  refine ⟨perform_position_nonneg hoffset c h.position, ?_⟩
  cases c with
  | accept rate samples =>
      rw [Call.perform, Stream.accept, leftBehind_withExtractor]
      exact h.grow (Audio.Extractor.accept_grows rate samples _)
  | finish =>
      rw [Call.perform, Stream.finish, leftBehind_withExtractor]
      exact h.grow (Audio.Extractor.finish_grows _)
  | decode =>
      rw [Call.perform, extractor_decode]
      exact h.frames
  | isEndpoint => exact h.frames
  | transcript =>
      rw [Call.perform]
      obtain hsame | hfinal := leftBehind_transcript r s.stream
      · rw [hsame]
        exact h.frames
      · rw [hfinal]
        exact h.frames
  | restart => exact h.frames

theorem underway_perform_all (hoffset : 0 ≤ r.model.offset) (calls : List (Call S))
    (h : r.Underway s.stream) : r.Underway (calls.foldl (Call.perform r) s).stream := by
  induction calls generalizing s with
  | nil => exact h
  | cons c calls ih => exact ih (h.perform hoffset c)

theorem rounds_underway (hoffset : 0 ≤ r.model.offset) (hround : r.IsRound round fault)
    (hs : r.Underway s.stream) (h : (rounds round n s).2 = .ok s') : r.Underway s'.stream := by
  refine ⟨rounds_position_nonneg hoffset hround hs.position h, ?_⟩
  rw [(rounds_advance hround h).1]
  exact hs.frames

section

variable (hbins : r.frontEnd.HasBins) (hsegment : 0 ≤ r.model.segment)

include hbins hsegment

/-- On a stream that is ready only the networks can make a decoding fail. -/
theorem decode_fails {f : Fault} (hs : r.Underway s.stream) (hready : r.isReady s.stream = true)
    (h : r.decode s = .error f s') : r.Fails s f := by
  have hin := (Conversation.isReady_iff r s.stream).mp hready
  have hcheck : r.frontEnd.check = .ok () := by
    obtain hnil | hcheck := hs.frames
    · have hpos := hs.position
      rw [Audio.Extractor.ready, hnil, List.length_nil] at hin
      omega
    · exact hcheck
  have hread : s.stream.frames r.frontEnd s.stream.processed r.model.segment = .ok _ :=
    Audio.Extractor.get_eq_window hbins hcheck hs.position hsegment hin.le
  rw [Recognizer.decode] at h
  simp only [hready, Bool.not_true, Bool.false_eq_true, if_false, hread] at h
  cases hencode : r.model.encode _ s.stream.encoderStates s.network with
  | error f' network =>
      rw [hencode] at h
      cases h
      exact .encoder hread hencode
  | ok answer network =>
      obtain ⟨out, states⟩ := answer
      rw [hencode] at h
      dsimp only at h
      cases hsearch : r.method.decode r.model.toNetwork r.graph out
          ⟨network, s.stream.search⟩ with
      | ok _ found =>
          rw [hsearch] at h
          cases h
      | error f' found =>
          rw [hsearch] at h
          cases h
          exact .search hread hencode hsearch

/-- A loop of rounds comes to its end after the last window. -/
theorem counted_rounds (hoffset : 1 ≤ r.model.offset) (hround : r.IsRound round fault)
    (hs : r.Underway s.stream) : r.Counted round s (r.roundsLeft s.stream) := by
  refine ⟨fun m s' h => isReady_rounds hoffset hround h, fun hnone => ?_⟩
  cases hlast : (rounds round (r.roundsLeft s.stream) s).2 with
  | ok s' => exact ⟨s', rfl⟩
  | error e =>
      obtain ⟨m, hm, s', hreached, hfailed⟩ := rounds_error_iff.mp hlast
      have hs' := rounds_underway (Int.le_trans (by decide) hoffset) hround hs hreached
      have hready := (isReady_rounds hoffset hround hreached).mpr hm
      have hfails : r.Fails s' (fault e) := by
        obtain ⟨_, hdecode⟩ | ⟨_, hdecode, hend | ⟨_, hend⟩⟩ := hround.fails s' e hfailed
        · exact decode_fails hbins hsegment hs' hready hdecode
        · exact .endpoint hdecode hend
        · exact .transcript hdecode hend
      exact absurd hfails (hnone m hm s' _ hreached)

end

section

variable {vocabulary : Nat} (hr : r.Dependable vocabulary)

include hr

omit [Sub S] [LogScale S] in
theorem isEndpoint_of_transcript_error {st st' : Stream S} {f : Fault}
    (hsound : r.method.Sound r.model.toNetwork vocabulary r.graph st.search)
    (h : r.transcript st = .error f st') : r.isEndpoint st = .error f := by
  cases hover : r.isEndpoint st with
  | error f' =>
      rw [Recognizer.transcript, hover] at h
      cases h
      rfl
  | ok isOver =>
      obtain ⟨t, st', htranscript, -⟩ := Conversation.transcript_eq_ok hr hover hsound
      rw [htranscript] at h
      cases h

/-- Of a recognizer that has all it needs, only the endpoint rules can fail. -/
theorem fails_of_dependable {f : Fault} (hpos : 0 ≤ s.stream.position)
    (hready : r.isReady s.stream = true)
    (hsound : r.method.Sound r.model.toNetwork vocabulary r.graph s.stream.search)
    (h : r.Fails s f) : ∃ s', r.decode s = .ok () s' ∧ r.isEndpoint s'.stream = .error f := by
  obtain ⟨_, s', hdecode, hsound'⟩ := Conversation.decode_yields hr hpos hready hsound
  cases h with
  | encoder read encode =>
      obtain ⟨answer, network, hencode, -⟩ := hr.encode _ s.stream.encoderStates s.network
      rw [hencode] at encode
      cases encode
  | search read encode decode =>
      rw [Recognizer.decode] at hdecode
      simp only [hready, Bool.not_true, Bool.false_eq_true, if_false, read, encode, decode]
        at hdecode
      cases hdecode
  | endpoint decode isEndpoint => exact ⟨_, decode, isEndpoint⟩
  | transcript decode transcript =>
      refine ⟨_, decode, ?_⟩
      rw [hdecode] at decode
      cases decode
      exact isEndpoint_of_transcript_error hr hsound' transcript

theorem rounds_sound (hoffset : 0 ≤ r.model.offset) (hround : r.IsRound round fault)
    (hpos : 0 ≤ s.stream.position)
    (hsound : r.method.Sound r.model.toNetwork vocabulary r.graph s.stream.search)
    (h : (rounds round n s).2 = .ok s') :
    r.method.Sound r.model.toNetwork vocabulary r.graph s'.stream.search := by
  refine (rounds_keep (P := fun s => 0 ≤ s.stream.position ∧
    r.method.Sound r.model.toNetwork vocabulary r.graph s.stream.search) ?_ ⟨hpos, hsound⟩ h).2
  intro s p ⟨hpos, hsound⟩ hp
  refine ⟨(hround.advance hp).2 ▸ Int.add_nonneg hpos hoffset, ?_⟩
  obtain ⟨s', st, hdecode, hst, hp⟩ := hround.goes_on s p hp
  have hready : r.isReady s.stream = true := by
    cases hready : r.isReady s.stream with
    | true => rfl
    | false =>
        rw [decode_of_not_ready hready] at hdecode
        cases hdecode
  obtain ⟨_, s'', hdecode', hsound'⟩ := Conversation.decode_yields hr hpos hready hsound
  rw [hdecode'] at hdecode
  cases hdecode
  have hsearch : st.search = s'.stream.search := by
    obtain rfl | rfl := hst <;> rfl
  rw [← hsearch] at hsound'
  obtain hp | hp := hp
  · rw [hp]
    exact hsound'
  · rw [hp]
    exact Conversation.sound_restart hr.graph hsound'

/-- Such a recognizer makes all rounds, unless its endpoint rules fail. -/
theorem Recognizer.Counted.eq_ok {k : Nat} (h : r.Counted round s k)
    (hoffset : 0 ≤ r.model.offset) (hround : r.IsRound round fault)
    (hrules : ∀ st f, r.isEndpoint st ≠ .error f) (hpos : 0 ≤ s.stream.position)
    (hsound : r.method.Sound r.model.toNetwork vocabulary r.graph s.stream.search) :
    ∃ s', rounds round k s = ((rounds round k s).1, .ok s') ∧ r.isReady s'.stream = false := by
  have hall : ∀ m < k, ∀ s' f, (rounds round m s).2 = .ok s' → ¬r.Fails s' f := by
    intro m hm s' f hreached hfails
    have hpos' := rounds_position_nonneg hoffset hround hpos hreached
    have hsound' := rounds_sound hr hoffset hround hpos hsound hreached
    obtain ⟨s'', -, hend⟩ :=
      fails_of_dependable hr hpos' ((h.ready m s' hreached).mpr hm) hsound' hfails
    exact hrules s''.stream f hend
  obtain ⟨s', hreached⟩ := h.ends hall
  refine ⟨s', Prod.ext rfl hreached, ?_⟩
  rw [Bool.eq_false_iff, ne_eq, h.ready k s' hreached]
  exact Nat.lt_irrefl k

end

end

end SpeechTransducer
