import SpeechTransducer.Proofs.Recognizer.Speech
import SpeechTransducer.Proofs.Score.Probability

/-!
Endpoints last through silence. With every silent frame both the utterance and its trailing silence
get longer, by the same time, so that what a rule has found stays true; frames that are passed and
not counted as silent make the utterance longer only. A greedy search that emits nothing has been
silent in all the frames that it has gone through, and those stand for no more than the stream has
passed. Thresholds may be infinite, so times are extended real numbers.
-/

namespace SpeechTransducer

noncomputable instance : Countable EReal where
  times? n x := some ((n : ℝ) * x)

noncomputable instance instHMulIntEReal : HMul Int EReal EReal where
  hMul n x := (n : ℝ) * x

theorem timeOf_coe (n : Int) (x : ℝ) : timeOf n (x : EReal) = .ok ((n * x : ℝ) : EReal) := by
  rw [EReal.coe_mul]
  rfl

section

variable {S : Type} [Preorder S] [DecidableLT S] [DecidableLE S]
variable {silence length silence' length' : S}

/-- A rule that fires goes on firing as silence and utterance get longer, unless the utterance was
longer than its silence and no longer is. -/
theorem EndpointRule.fires_mono {rule : EndpointRule S} (hsilence : silence ≤ silence')
    (hlength : length ≤ length') (hspeech : silence < length → silence' < length')
    (h : rule.fires silence length = true) : rule.fires silence' length' = true := by
  simp only [EndpointRule.fires, Bool.and_eq_true, Bool.or_eq_true, decide_eq_true_eq] at h ⊢
  obtain ⟨⟨hspoken, hpause⟩, hlong⟩ := h
  exact ⟨⟨hspoken.imp_left hspeech, hpause.trans hsilence⟩, hlong.trans hlength⟩

theorem EndpointConfig.fired_mono {rules : EndpointConfig S} (hsilence : silence ≤ silence')
    (hlength : length ≤ length') (hspeech : silence < length → silence' < length')
    (h : (rules.fired? silence length).isSome = true) :
    (rules.fired? silence' length').isSome = true := by
  rw [EndpointConfig.fired?, Option.isSome_map, List.find?_isSome] at h ⊢
  obtain ⟨rule, hrule, hfires⟩ := h
  exact ⟨rule, hrule, EndpointRule.fires_mono hsilence hlength hspeech hfires⟩

end

theorem EndpointConfig.isEndpoint_coe (rules : EndpointConfig EReal) (frames silent : Int)
    (shift : ℝ) : rules.isEndpoint frames silent (shift : EReal) =
      .ok (rules.fired? ((silent * shift : ℝ) : EReal) ((frames * shift : ℝ) : EReal)).isSome := by
  rw [EndpointConfig.isEndpoint, timeOf_coe, timeOf_coe]
  rfl

section

variable {shift : ℝ} (hshift : 0 < shift)

include hshift

theorem time_le_iff {m n : Int} :
    ((m * shift : ℝ) : EReal) ≤ ((n * shift : ℝ) : EReal) ↔ m ≤ n := by
  rw [EReal.coe_le_coe_iff, mul_le_mul_iff_left₀ hshift, Int.cast_le]

theorem time_lt_iff {m n : Int} :
    ((m * shift : ℝ) : EReal) < ((n * shift : ℝ) : EReal) ↔ m < n := by
  rw [EReal.coe_lt_coe_iff, mul_lt_mul_iff_left₀ hshift, Int.cast_lt]

/-- Under exact times, an endpoint lasts as silent frames are added, and frames that are passed
only. -/
theorem EndpointConfig.isEndpoint_add {rules : EndpointConfig EReal} {frames silent : Int}
    (d e : Nat) (h : rules.isEndpoint frames silent shift = .ok true) :
    rules.isEndpoint (frames + d + e) (silent + d) shift = .ok true := by
  rw [EndpointConfig.isEndpoint_coe, Except.ok.injEq] at h ⊢
  refine EndpointConfig.fired_mono ?_ ?_ ?_ h
  · rw [time_le_iff hshift]
    omega
  · rw [time_le_iff hshift]
    omega
  · rw [time_lt_iff hshift, time_lt_iff hshift]
    omega

end

namespace Search.Greedy

variable {S : Type} {t : Int} {n : Nat} {st st' : State S}

theorem Passes.length_le (h : Passes t n st st') : st.tokens.length ≤ st'.tokens.length := by
  induction h with
  | refl t st => exact Nat.le_refl _
  | @step t n st mid st' hstep _ ih =>
      obtain ⟨token, -, rfl⟩ | rfl := hstep
      · rw [State.emit, List.length_append] at ih
        omega
      · exact ih

/-- Frames that emit nothing are all counted as silent. -/
theorem Passes.trailingBlanks (h : Passes t n st st') (hsame : st'.tokens = st.tokens) :
    st'.trailingBlanks = st.trailingBlanks + n := by
  induction h with
  | refl t st => exact (Int.add_zero _).symm
  | @step t n st mid st' hstep hrest ih =>
      obtain ⟨token, -, rfl⟩ | rfl := hstep
      · -- A token stays once it is emitted.
        have hlength := hrest.length_le
        rw [hsame, State.emit, List.length_append, List.length_singleton] at hlength
        omega
      · rw [ih hsame, State.rest]
        dsimp only
        omega

end Search.Greedy

section

variable {σ S : Type} [Zero S] [Add S] [Sub S] [BEq S] [LT S] [DecidableLT S] [LogScale S]
variable {r : Recognizer σ S} {s : Session σ S}

/-- If the encoder is asked, it answers with as many frames as stand for the distance to the next
window. -/
def FullChunk (r : Recognizer σ S) (s : Session σ S) : Prop :=
  ∀ features, r.window s.stream = .ok features →
    ∃ frames, r.encoded s features = .ok frames ∧ subsampling * frames.length = r.model.offset

/-- A decoding that emits nothing has counted frames as silent, and passed as many or more. -/
theorem decode_silent (hm : r.method = .greedy) (hfull : FullChunk r s)
    (hsame : (leftBehind (r.decode s)).stream.search.tokens = s.stream.search.tokens) :
    ∃ d e : Nat,
      (leftBehind (r.decode s)).stream.processed = s.stream.processed + subsampling * d + e ∧
      (leftBehind (r.decode s)).stream.search.trailingBlanks =
        s.stream.search.trailingBlanks + d := by
  cases hwindow : r.window s.stream with
  | error f =>
      rw [decode_of_unread hwindow]
      exact ⟨0, 0, by simp [leftBehind], by simp [leftBehind]⟩
  | ok features =>
      obtain ⟨frames, hencoded, hcount⟩ := hfull features hwindow
      rw [subsampling] at hcount ⊢
      cases hdecode : r.decode s with
      | ok _ s' =>
          obtain ⟨out, network, found, hout, hfound, hsearch, hprocessed⟩ :=
            decode_ok_inv hwindow hdecode
          rw [hm] at hfound
          obtain ⟨passed, rows, hpasses, hstate⟩ :=
            (Search.Greedy.decode_passes (hout.symm.trans hencoded)).of_ok hfound
          rw [hdecode, leftBehind, hsearch, hstate] at hsame
          refine ⟨frames.length, 0, ?_, ?_⟩
          · rw [leftBehind, hprocessed]
            omega
          · rw [leftBehind, hsearch, hstate]
            exact hpasses.trailingBlanks hsame
      | error e s' =>
          obtain ⟨hstream, -, hinterrupted⟩ := (decode_of_read hwindow).of_error hdecode
          have hleft := hinterrupted frames hencoded
          rw [hm] at hleft
          obtain ⟨k, hk, hpasses⟩ := hleft
          rw [hdecode, leftBehind] at hsame
          refine ⟨k, 4 * (frames.length - k), ?_, hpasses.trailingBlanks hsame⟩
          rw [leftBehind, hstream]
          dsimp only
          omega

variable [LE S] [DecidableLE S] [Countable S] [HMul Int S S]

/-- Calls without a restart, of which no decoding emits a token. -/
def SilentRun (r : Recognizer σ S) : Session σ S → List (Call S) → Prop
  | _, [] => True
  | s, c :: calls =>
    c ≠ .restart ∧
    (c = .decode →
      FullChunk r s ∧
      (leftBehind (r.decode s)).stream.search.tokens = s.stream.search.tokens) ∧
    SilentRun r (c.perform r s) calls

/-- Calls of a silent run add silent frames, and frames that are passed only. -/
theorem perform_silent (hm : r.method = .greedy) {calls : List (Call S)}
    (hcalls : SilentRun r s calls) :
    ∃ d e : Nat,
      (calls.foldl (Call.perform r) s).stream.processed =
        s.stream.processed + subsampling * d + e ∧
      (calls.foldl (Call.perform r) s).stream.search.trailingBlanks =
        s.stream.search.trailingBlanks + d := by
  induction calls generalizing s with
  | nil => exact ⟨0, 0, by simp, by simp⟩
  | cons c calls ih =>
      obtain ⟨hrestart, hdecode, hcalls⟩ := hcalls
      obtain ⟨d', e', hprocessed', hsilent'⟩ := ih hcalls
      obtain ⟨d, e, hprocessed, hsilent⟩ : ∃ d e : Nat,
          (c.perform r s).stream.processed = s.stream.processed + subsampling * d + e ∧
          (c.perform r s).stream.search.trailingBlanks = s.stream.search.trailingBlanks + d := by
        obtain rfl | rfl | ⟨extractor, isFinal, hperform⟩ := perform_frame r s c
        · exact decode_silent hm (hdecode rfl).1 (hdecode rfl).2
        · exact absurd rfl hrestart
        · rw [hperform]
          exact ⟨0, 0, by simp, by simp⟩
      refine ⟨d + d', e + e', ?_, ?_⟩
      · rw [List.foldl_cons, hprocessed', hprocessed, subsampling]
        omega
      · rw [List.foldl_cons, hsilent', hsilent]
        omega

end

/-- Under exact times, an endpoint lasts through silence: as silent frames are added, whatever else
the stream has passed, and so through every greedy run in which no token is emitted. -/
theorem endpoint_persists {shift : ℝ} (hshift : 0 < shift) :
    (∀ (rules : EndpointConfig EReal) (frames silent : Int) (d e : Nat),
      rules.isEndpoint frames silent shift = .ok true →
        rules.isEndpoint (frames + d + e) (silent + d) shift = .ok true) ∧
    ∀ {σ : Type} (r : Recognizer σ EReal) (s : Session σ EReal) (calls : List (Call EReal)),
      r.method = .greedy → r.frameShift = shift → SilentRun r s calls →
        r.isEndpoint s.stream = .ok true →
          r.isEndpoint (calls.foldl (Call.perform r) s).stream = .ok true := by
  refine ⟨fun rules frames silent d e => EndpointConfig.isEndpoint_add hshift d e, ?_⟩
  intro σ r s calls hm hframeShift hcalls hover
  obtain ⟨d, e, hprocessed, hsilent⟩ := perform_silent hm hcalls
  rw [Recognizer.isEndpoint] at hover ⊢
  cases hrules : r.endpoints with
  | none =>
      rw [hrules] at hover
      cases hover
  | some rules =>
      rw [hrules, hframeShift] at hover
      have hframes : subsampling * d = ((4 * d : Nat) : Int) := (Int.natCast_mul 4 d).symm
      have hcount (n : Int) : (n + d) * subsampling = n * subsampling + ((4 * d : Nat) : Int) := by
        rw [Int.add_mul, Int.mul_comm (d : Int), hframes]
      rw [hframeShift, hprocessed, hsilent, hframes, hcount]
      exact EndpointConfig.isEndpoint_add hshift (4 * d) e hover

/-- Rules of which the first asks for a short silence only, and the others never fire. -/
noncomputable def impatient : EndpointConfig EReal :=
  ⟨⟨false, (0.04 : ℝ), 0⟩, ⟨true, ⊤, 0⟩, ⟨false, 0, ⊤⟩⟩

/-- A recognizer that hears nothing. -/
noncomputable def unmoved : Recognizer Unit EReal where
  model :=
    { contextSize := 2
      predict := fun rows => pure (rows.map fun _ => [0])
      join := fun _ rows => pure (rows.map fun _ => [0])
      segment := 8
      offset := 4
      initialStates := .ok []
      encode := fun _ states => pure (.array { shape := [1, 1, 1], data := #[0] }, states) }
  symbols := {}
  frontEnd :=
    { rate := 16000
      bins := 80
      window := 1
      shift := 1
      check := .ok ()
      frame := id
      converter := fun _ => .error .zeroShift
      sample := fun n => (steadily.frontEnd.sample n : ℝ) }
  method := .greedy
  endpoints := some impatient
  frameShift := (0.01 : ℝ)

theorem endpoint_persists_unmoved :
    let silence : Argument EReal := .array (Tensor.filled .float32 [17] 0)
    let before : List (Call EReal) := [.accept 16000 silence, .decode]
    let after : List (Call EReal) := [.isEndpoint, .decode, .finish, .decode]
    ∃ st, unmoved.newStream = .ok st ∧
      let s := before.foldl (Call.perform unmoved) ⟨(), st⟩
      impatient.isEndpoint (4 + 4 + 3) (4 + 4) (0.01 : ℝ) = .ok true ∧
      unmoved.isEndpoint (after.foldl (Call.perform unmoved) s).stream = .ok true := by
  intro silence before after
  have hshift : (0 : ℝ) < 0.01 := by norm_num
  obtain ⟨hlonger, hlater⟩ := endpoint_persists hshift
  have hfires : impatient.rule1.fires (((4 : Int) * 0.01 : ℝ) : EReal)
      (((4 : Int) * 0.01 : ℝ) : EReal) = true := by
    have hlong : (0.04 : ℝ) ≤ (4 : Int) * 0.01 := by norm_num
    have hpos : (0 : ℝ) ≤ (4 : Int) * 0.01 := by norm_num
    rw [EndpointRule.fires, Bool.and_eq_true, Bool.and_eq_true, Bool.or_eq_true]
    exact ⟨⟨.inr rfl, decide_eq_true (EReal.coe_le_coe_iff.mpr hlong)⟩,
      decide_eq_true (EReal.coe_nonneg.mpr hpos)⟩
  have hover : impatient.isEndpoint 4 4 (0.01 : ℝ) = .ok true := by
    rw [EndpointConfig.isEndpoint_coe, Except.ok.injEq, EndpointConfig.fired?, Option.isSome_map,
      List.find?_isSome]
    exact ⟨("rule1", impatient.rule1), List.mem_cons_self, hfires⟩
  have hfull (s : Session Unit EReal) : FullChunk unmoved s := fun features _ => ⟨[[0]], rfl, rfl⟩
  refine ⟨{ search := unmoved.freshSearch }, rfl, hlonger impatient 4 4 4 3 hover, ?_⟩
  refine hlater unmoved _ after rfl rfl ?_ ?_
  · refine ⟨by simp, by simp, by simp, fun _ => ⟨hfull _, ?_⟩, by simp, by simp, by simp,
      fun _ => ⟨hfull _, ?_⟩, trivial⟩ <;> decide +kernel
  · have hrules (st : Stream EReal) : unmoved.isEndpoint st = impatient.isEndpoint st.processed
        (st.search.trailingBlanks * subsampling) (0.01 : ℝ) := rfl
    have hcounts : (before.foldl (Call.perform unmoved)
          ⟨(), { search := unmoved.freshSearch }⟩).stream.processed = 4 ∧
        (before.foldl (Call.perform unmoved)
          ⟨(), { search := unmoved.freshSearch }⟩).stream.search.trailingBlanks = 1 := by
      decide +kernel
    rw [hrules, hcounts.1, hcounts.2]
    exact hover

end SpeechTransducer
