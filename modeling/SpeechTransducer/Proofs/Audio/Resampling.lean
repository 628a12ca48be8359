import SpeechTransducer.Proofs.Audio.Blocks

/-!
Resampling in pieces. Between two pieces a resampler has converted a number of whole blocks, and
still holds the samples that a later block looks at. What it gives out for the pieces, and at the
end for the samples held back, is together what the converter makes of the whole signal.
-/

namespace SpeechTransducer.Audio

variable {S : Type}

/-- The blocks that a converter needs on each side. -/
def Converter.contextBlocks (c : Converter S) : Nat := (c.halfWidth + c.inBlock - 1) / c.inBlock

theorem Converter.context_eq (c : Converter S) : c.context = c.contextBlocks * c.inBlock :=
  Nat.mul_comm _ _

/-- The first block that is still looked at once so many are converted. -/
def Converter.kept (c : Converter S) (done : Nat) : Nat := done - c.contextBlocks

theorem Converter.kept_le (c : Converter S) (done : Nat) : c.kept done ≤ done := Nat.sub_le _ _

theorem Converter.kept_mono (c : Converter S) {done next : Nat} (h : done ≤ next) :
    c.kept done ≤ c.kept next :=
  Nat.sub_le_sub_right h _

/-- The first block that is kept starts where the context of the first block to come does, or with
the signal. -/
theorem Converter.kept_mul (c : Converter S) (done : Nat) :
    (c.kept done * c.inBlock : Nat) = max 0 ((done * c.inBlock : Nat) - (c.context : Int)) := by
  rw [kept, c.context_eq, Nat.sub_mul]
  omega

theorem Converter.halfWidth_le {c : Converter S} (hpos : 0 < c.inBlock) :
    c.halfWidth ≤ c.contextBlocks * c.inBlock := by
  have hlt : c.halfWidth + c.inBlock - 1 < c.contextBlocks * c.inBlock + c.inBlock :=
    Nat.lt_div_mul_add hpos
  omega

theorem Converter.le_of_fit (c : Converter S) {next length : Nat}
    (hfit : (next + c.contextBlocks) * c.inBlock ≤ length) : next * c.inBlock ≤ length := by
  rw [Nat.add_mul] at hfit
  exact Nat.le_of_add_right_le hfit

namespace Resampler

variable {c : Converter S} {signal whole : List S} {done : Nat} {r : Resampler S}

/-- A resampler that has been fed a signal, of which it has converted a number of blocks. It still
holds the blocks before that position that the next block looks at. -/
structure Holding (c : Converter S) (signal : List S) (done : Nat) (r : Resampler S) : Prop where
  converter : r.converter = c
  position : r.position = (done * c.inBlock : Nat)
  bufferStart : r.bufferStart = (c.kept done * c.inBlock : Nat)
  buffer : r.buffer = signal.drop (c.kept done * c.inBlock)
  le : done * c.inBlock ≤ signal.length

theorem Holding.start (c : Converter S) : Holding c [] 0 { converter := c } where
  converter := rfl
  position := by rw [Nat.zero_mul]; rfl
  bufferStart := by rw [Converter.kept, Nat.zero_sub, Nat.zero_mul]; rfl
  buffer := by rw [List.drop_nil]
  le := by rw [Nat.zero_mul]; exact Nat.zero_le _

theorem Holding.bufferStart_le (h : Holding c signal done r) :
    c.kept done * c.inBlock ≤ signal.length :=
  Nat.le_trans (Nat.mul_le_mul_right _ (c.kept_le done)) h.le

theorem Holding.fed_eq (h : Holding c signal done r) : r.fed = signal.length := by
  have hle := h.bufferStart_le
  rw [fed, h.bufferStart, h.buffer, List.length_drop]
  omega

theorem Holding.push (h : Holding c signal done r) (samples : List S) :
    Holding c (signal ++ samples) done (r.push samples) where
  converter := h.converter
  position := h.position
  bufferStart := h.bufferStart
  buffer := by
    rw [Resampler.push, h.buffer, List.drop_append_of_le_length h.bufferStart_le]
  le := by
    rw [List.length_append]
    exact Nat.le_add_right_of_le h.le

/-- The reach of a resampler is a number of blocks, with all that they look at behind it. -/
theorem Holding.reach_eq (h : Holding c signal done r) (hpos : 0 < c.inBlock)
    (hlt : r.position < r.reach) :
    ∃ next, r.reach = (next * c.inBlock : Nat) ∧
      r.reach + r.converter.context = ((next + c.contextBlocks) * c.inBlock : Nat) ∧
      done < next ∧ (next + c.contextBlocks) * c.inBlock ≤ signal.length := by
  have hblock : (0 : Int) < c.inBlock := Int.natCast_pos.mpr hpos
  have hreach : r.reach =
      ((signal.length : Int) - (c.contextBlocks * c.inBlock : Nat)) / c.inBlock * c.inBlock := by
    rw [reach, h.fed_eq, h.converter, c.context_eq]
  have hin := Int.ediv_mul_le ((signal.length : Int) - (c.contextBlocks * c.inBlock : Nat))
    hblock.ne'
  generalize ((signal.length : Int) - (c.contextBlocks * c.inBlock : Nat)) / c.inBlock = blocks
    at hreach hin
  rw [h.position, hreach, Int.natCast_mul] at hlt
  have hdone : (done : Int) < blocks := Int.lt_of_mul_lt_mul_right hlt hblock.le
  obtain ⟨next, rfl⟩ := Int.eq_ofNat_of_zero_le (by omega : 0 ≤ blocks)
  refine ⟨next, by rw [hreach, Int.natCast_mul], ?_, by omega, ?_⟩
  · rw [hreach, h.converter, c.context_eq, Nat.add_mul, Int.natCast_add, Int.natCast_mul next]
  push_cast at hin
  have hfit : ((next + c.contextBlocks : Nat) * c.inBlock : Int) ≤ signal.length := by
    push_cast
    rw [Int.add_mul]
    omega
  exact_mod_cast hfit

theorem Holding.run_next (h : Holding c signal done r) {next : Nat} (hnext : done ≤ next)
    (hfit : next * c.inBlock ≤ signal.length) (segmentEnd : Int) :
    Holding c signal next (r.run segmentEnd (next * c.inBlock : Nat)).2 := by
  have hmul : c.kept done * c.inBlock ≤ c.kept next * c.inBlock :=
    Nat.mul_le_mul_right _ (c.kept_mono hnext)
  have hkeep : max r.bufferStart ((next * c.inBlock : Nat) - (r.converter.context : Int)) =
      (c.kept next * c.inBlock : Nat) := by
    have hkept := c.kept_mul next
    rw [h.bufferStart, h.converter]
    omega
  refine ⟨h.converter, rfl, hkeep, ?_, hfit⟩
  have hsub : ((c.kept next * c.inBlock : Nat) : Int) - (c.kept done * c.inBlock : Nat) =
      (c.kept next * c.inBlock - c.kept done * c.inBlock : Nat) := (Int.natCast_sub hmul).symm
  simp only [run]
  rw [hkeep, h.bufferStart, hsub, sliceFrom_natCast, h.buffer, List.drop_drop,
    Nat.add_sub_cancel' hmul]

/-- What a run converts: the samples up to some end, from the first block that is kept. -/
def segment (c : Converter S) (signal : List S) (done segmentEnd : Nat) : List S :=
  (signal.take segmentEnd).drop (c.kept done * c.inBlock)

/-- The buffer starts with the context of the next block, or with the signal. -/
theorem Holding.start_eq (h : Holding c signal done r) :
    max r.bufferStart (r.position - (c.context : Int)) = r.bufferStart := by
  rw [h.bufferStart, h.position, c.kept_mul]
  omega

theorem Holding.segment_eq (h : Holding c signal done r) {segmentEnd : Nat}
    (hend : done * c.inBlock ≤ segmentEnd) :
    slice (r.bufferStart - r.bufferStart) (segmentEnd - r.bufferStart) r.buffer =
      segment c signal done segmentEnd := by
  have hmul : c.kept done * c.inBlock ≤ done * c.inBlock :=
    Nat.mul_le_mul_right _ (c.kept_le done)
  have hcast : (segmentEnd : Int) - r.bufferStart =
      (segmentEnd - c.kept done * c.inBlock : Nat) := by
    rw [h.bufferStart]
    omega
  rw [hcast, Int.sub_self, ← Int.natCast_zero, slice_natCast, h.buffer, segment, List.drop_take]
  rfl

theorem Holding.first_eq (h : Holding c signal done r) (hpos : 0 < c.inBlock) :
    (r.position - r.bufferStart) / c.inBlock * c.outBlock =
      ((done - c.kept done) * c.outBlock : Nat) := by
  have hmul : c.kept done * c.inBlock ≤ done * c.inBlock :=
    Nat.mul_le_mul_right _ (c.kept_le done)
  have hcast : r.position - r.bufferStart = ((done - c.kept done) * c.inBlock : Nat) := by
    rw [h.position, h.bufferStart, Nat.sub_mul, Int.natCast_sub hmul]
  rw [hcast, ← Int.natCast_div, Nat.mul_div_cancel _ hpos, Int.natCast_mul]

theorem last_eq {segmentEnd stop first count length : Nat} (hstop : stop ≤ segmentEnd)
    (hcount : length = first + count + (segmentEnd - stop) / c.inBlock * c.outBlock) :
    (length : Int) - (segmentEnd - stop : Int) / c.inBlock * c.outBlock =
      (first + count : Nat) := by
  rw [hcount, ← Int.natCast_sub hstop, ← Int.natCast_div, ← Int.natCast_mul]
  omega

/-- A run leaves out what its segment becomes at the blocks that are converted already, and behind
the position up to which it converts. -/
theorem Holding.run_eq (h : Holding c signal done r) (hpos : 0 < c.inBlock)
    {segmentEnd stop count : Nat} (hdone : done * c.inBlock ≤ stop) (hstop : stop ≤ segmentEnd)
    (hcount : (c.convert (segment c signal done segmentEnd)).length =
      (done - c.kept done) * c.outBlock + count +
        (segmentEnd - stop) / c.inBlock * c.outBlock) :
    (r.run segmentEnd stop).1 =
      ((c.convert (segment c signal done segmentEnd)).drop
        ((done - c.kept done) * c.outBlock)).take count := by
  simp only [run, h.converter, h.start_eq, h.segment_eq (hdone.trans hstop), h.first_eq hpos,
    last_eq hstop hcount, slice_natCast, Nat.add_sub_cancel_left]

section

variable (hlength : ∀ signal, (c.convert signal).length = c.count signal.length)

include hlength

/-- Where whole blocks are converted, every block gives its share. -/
theorem length_convert_blocks (hpos : 0 < c.inBlock) {next : Nat} (hnext : done ≤ next)
    (hfit : (next + c.contextBlocks) * c.inBlock ≤ signal.length) :
    (c.convert (segment c signal done ((next + c.contextBlocks) * c.inBlock))).length =
      (done - c.kept done) * c.outBlock + (next - done) * c.outBlock +
        ((next + c.contextBlocks) * c.inBlock - next * c.inBlock) / c.inBlock * c.outBlock := by
  rw [hlength, segment, List.length_drop, List.length_take_of_le hfit, ← Nat.sub_mul,
    ← Nat.sub_mul, Converter.count_blocks hpos, Nat.mul_div_cancel _ hpos, ← Nat.add_mul,
    ← Nat.add_mul]
  congr 1
  have hle := c.kept_le done
  omega

/-- At the end of a signal the last block may not be a whole one, so that the number of samples
left is only known to exist. -/
theorem exists_length_convert_rest (hpos : 0 < c.inBlock) (hle : done * c.inBlock ≤ whole.length) :
    ∃ count, (c.convert (segment c whole done whole.length)).length =
      (done - c.kept done) * c.outBlock + count +
        (whole.length - whole.length) / c.inBlock * c.outBlock := by
  have hsub : (done - c.kept done) * c.inBlock ≤ whole.length - c.kept done * c.inBlock := by
    rw [Nat.sub_mul]
    exact Nat.sub_le_sub_right hle _
  rw [hlength, segment, List.length_drop, List.take_length, Nat.sub_self, Nat.zero_div,
    Nat.zero_mul, ← Converter.count_blocks hpos]
  exact Nat.exists_eq_add_of_le (Converter.count_mono hsub)

end

theorem tryFeed_eq (h : r.converter.refusal = none) (samples : List S) :
    r.tryFeed samples = .ok (r.feed samples).1 (r.feed samples).2 := by
  have hpush : (r.push samples).converter.refusal = none := h
  rw [tryFeed, unlessRefused, hpush]
  rfl

theorem tryFlush_eq (h : r.converter.refusal = none) :
    r.tryFlush = .ok r.flush.1 r.flush.2 := by
  rw [tryFlush, unlessRefused, h]

theorem feed_converter (samples : List S) : (r.feed samples).2.converter = r.converter := by
  rw [feed, advance]
  split
  · rfl
  · rfl

/-- Feeds pieces of a signal one after the other. -/
def tryFeedAll : List (List S) → EStateM Fault (Resampler S) (List S)
  | [] => pure []
  | piece :: pieces => do
    let converted ← tryFeed piece
    return converted ++ (← tryFeedAll pieces)

theorem tryFeedAll_cons (h : r.converter.refusal = none) (piece : List S)
    (pieces : List (List S)) :
    tryFeedAll (piece :: pieces) r =
      match tryFeedAll pieces (r.feed piece).2 with
      | .ok converted r' => .ok ((r.feed piece).1 ++ converted) r'
      | .error f r' => .error f r' := by
  change EStateM.bind (tryFeed piece) _ r = _
  rw [EStateM.bind, tryFeed_eq h]
  change EStateM.bind (tryFeedAll pieces) _ _ = _
  rw [EStateM.bind]
  cases tryFeedAll pieces (r.feed piece).2 with
  | ok converted r' => rfl
  | error f r' => rfl

section

variable [Zero S]

/-- A segment becomes what the whole signal becomes, from the first block that is not converted
yet, as far as the segment holds what the blocks see. -/
theorem getElem?_segment (hc : c.Blockwise) {segmentEnd i : Nat}
    (hdone : done * c.inBlock ≤ segmentEnd) (hend : segmentEnd ≤ whole.length)
    (hseen : segmentEnd = whole.length ∨
      (done + i / c.outBlock + 1) * c.inBlock + c.halfWidth ≤ segmentEnd) :
    (c.convert (segment c whole done segmentEnd))[(done - c.kept done) * c.outBlock + i]? =
      (c.convert whole)[done * c.outBlock + i]? := by
  have hle := c.kept_le done
  have hblock : ((done - c.kept done) * c.outBlock + i) / c.outBlock =
      done - c.kept done + i / c.outBlock := by
    rw [Nat.add_comm, Nat.add_mul_div_right _ _ hc.outBlock_pos, Nat.add_comm]
  have hwhole : c.kept done * c.outBlock + ((done - c.kept done) * c.outBlock + i) =
      done * c.outBlock + i := by
    rw [← Nat.add_assoc, ← Nat.add_mul, Nat.add_sub_cancel' hle]
  rw [← hwhole, segment]
  refine hc.getElem?_part ?_ hend ?_ ?_
  · exact Nat.le_trans (Nat.mul_le_mul_right _ hle) hdone
  · rw [hblock]
    -- What is kept starts with the signal, or holds the whole context.
    by_cases hfirst : c.kept done = 0
    · exact .inl hfirst
    · have hcontext : c.contextBlocks ≤ done - c.kept done := by
        rw [Converter.kept] at hfirst ⊢
        omega
      refine .inr (Nat.le_trans (Converter.halfWidth_le hc.inBlock_pos) ?_)
      exact Nat.mul_le_mul_right _ (Nat.le_add_right_of_le hcontext)
  · rw [hblock, ← Nat.add_assoc, Nat.add_sub_cancel' hle]
    exact hseen

theorem Holding.run_blocks (h : Holding c signal done r) (hc : c.Blockwise) {next : Nat}
    (hnext : done ≤ next) (hfit : (next + c.contextBlocks) * c.inBlock ≤ signal.length)
    (hwhole : signal <+: whole) :
    (c.convert whole).take (done * c.outBlock) ++
        (r.run ((next + c.contextBlocks) * c.inBlock : Nat) (next * c.inBlock : Nat)).1 =
      (c.convert whole).take (next * c.outBlock) := by
  have hdone : done * c.inBlock ≤ next * c.inBlock := Nat.mul_le_mul_right _ hnext
  have hstop : next * c.inBlock ≤ (next + c.contextBlocks) * c.inBlock :=
    Nat.mul_le_mul_right _ (Nat.le_add_right _ _)
  have hcount := length_convert_blocks hc.length_convert hc.inBlock_pos hnext hfit
  have hsegment : segment c signal done ((next + c.contextBlocks) * c.inBlock) =
      segment c whole done ((next + c.contextBlocks) * c.inBlock) := by
    obtain ⟨later, rfl⟩ := hwhole
    rw [segment, segment, List.take_append_of_le_length hfit]
  have hnew : next * c.outBlock = done * c.outBlock + (next - done) * c.outBlock := by
    rw [← Nat.add_mul, Nat.add_sub_cancel' hnext]
  rw [h.run_eq hc.inBlock_pos hdone hstop hcount, hsegment, hnew, List.take_add]
  congr 1
  apply List.ext_getElem?
  intro i
  rw [List.getElem?_take, List.getElem?_take, List.getElem?_drop, List.getElem?_drop]
  split
  · rename_i hi
    have hblock : i / c.outBlock < next - done := Nat.div_lt_of_lt_mul (by rwa [Nat.mul_comm])
    refine getElem?_segment hc (Nat.le_trans hdone hstop)
      (Nat.le_trans hfit hwhole.length_le) (.inr ?_)
    rw [Nat.add_mul next]
    refine Nat.add_le_add (Nat.mul_le_mul_right _ ?_) (Converter.halfWidth_le hc.inBlock_pos)
    generalize i / c.outBlock = block at hblock
    omega
  · rfl

theorem Holding.run_rest (h : Holding c whole done r) (hc : c.Blockwise) :
    (c.convert whole).take (done * c.outBlock) ++ (r.run whole.length whole.length).1 =
      c.convert whole := by
  obtain ⟨count, hcount⟩ := exists_length_convert_rest hc.length_convert hc.inBlock_pos h.le
  have hdrop : (c.convert (segment c whole done whole.length)).drop
      ((done - c.kept done) * c.outBlock) = (c.convert whole).drop (done * c.outBlock) := by
    apply List.ext_getElem?
    intro i
    rw [List.getElem?_drop, List.getElem?_drop]
    exact getElem?_segment hc h.le le_rfl (.inl rfl)
  have hrest : ((c.convert (segment c whole done whole.length)).drop
      ((done - c.kept done) * c.outBlock)).length ≤ count := by
    rw [List.length_drop, hcount, Nat.sub_self, Nat.zero_div, Nat.zero_mul, Nat.add_zero,
      Nat.add_sub_cancel_left]
  rw [h.run_eq hc.inBlock_pos h.le le_rfl hcount, List.take_of_length_le hrest, hdrop,
    List.take_append_drop]

/-- Feeding samples converts some more blocks. -/
theorem Holding.feed (h : Holding c signal done r) (hc : c.Blockwise) (samples : List S)
    (hwhole : signal ++ samples <+: whole) :
    ∃ next, Holding c (signal ++ samples) next (r.feed samples).2 ∧
      (c.convert whole).take (done * c.outBlock) ++ (r.feed samples).1 =
        (c.convert whole).take (next * c.outBlock) := by
  have hpush := h.push samples
  rw [Resampler.feed, advance]
  split
  · exact ⟨done, hpush, List.append_nil _⟩
  · rename_i hlt
    obtain ⟨next, hreach, hsegmentEnd, hnext, hfit⟩ :=
      hpush.reach_eq hc.inBlock_pos (Int.not_le.mp hlt)
    rw [hsegmentEnd, hreach]
    exact ⟨next, hpush.run_next hnext.le (c.le_of_fit hfit) _,
      hpush.run_blocks hc hnext.le hfit hwhole⟩

theorem Holding.flush (h : Holding c whole done r) (hc : c.Blockwise) :
    (c.convert whole).take (done * c.outBlock) ++ r.flush.1 = c.convert whole := by
  rw [Resampler.flush, h.fed_eq]
  split
  · rename_i hend
    rw [h.position] at hend
    have hlength : whole.length = done * c.inBlock := by
      have hle := h.le
      omega
    rw [List.append_nil, List.take_of_length_le]
    rw [hc.length_convert, hlength, Converter.count_blocks hc.inBlock_pos]
  · exact h.run_rest hc

theorem Holding.feedAll (h : Holding c signal done r) (hc : c.Blockwise)
    (hrefusal : c.refusal = none) (pieces : List (List S))
    (hwhole : signal ++ pieces.flatten <+: whole) :
    ∃ next converted r', tryFeedAll pieces r = .ok converted r' ∧
      Holding c (signal ++ pieces.flatten) next r' ∧
      (c.convert whole).take (done * c.outBlock) ++ converted =
        (c.convert whole).take (next * c.outBlock) := by
  induction pieces generalizing signal done r with
  | nil =>
      refine ⟨done, [], r, rfl, ?_, List.append_nil _⟩
      rwa [List.flatten_nil, List.append_nil]
  | cons piece pieces ih =>
      rw [List.flatten_cons, ← List.append_assoc] at hwhole ⊢
      obtain ⟨middle, hmiddle, hfirst⟩ :=
        h.feed hc piece ((List.prefix_append _ _).trans hwhole)
      obtain ⟨next, converted, r', hrun, hend, hrest⟩ := ih hmiddle hwhole
      refine ⟨next, (r.feed piece).1 ++ converted, r', ?_, hend, ?_⟩
      · rw [tryFeedAll_cons (h.converter ▸ hrefusal), hrun]
      · rw [← List.append_assoc, hfirst, hrest]

/-- What a resampler has given for all pieces of a signal is what its first blocks become. -/
theorem holding_tryFeedAll (hc : c.Blockwise) (hrefusal : c.refusal = none)
    (pieces : List (List S)) :
    ∃ next r, tryFeedAll pieces { converter := c } =
        .ok ((c.convert pieces.flatten).take (next * c.outBlock)) r ∧
      Holding c pieces.flatten next r := by
  obtain ⟨next, converted, r, hrun, hend, hconverted⟩ :=
    (Holding.start c).feedAll hc hrefusal pieces (List.prefix_refl _)
  rw [Nat.zero_mul, List.take_zero, List.nil_append] at hconverted
  subst hconverted
  exact ⟨next, r, hrun, hend⟩

/-- However a signal is cut into pieces, what its pieces give and what is held back at the end are
together what the whole signal becomes, and what the pieces give is the beginning of it. -/
theorem tryFeedAll_tryFlush {source target : Nat} (h : c.Between source target)
    (pieces : List (List S)) :
    ∃ converted held r r', tryFeedAll pieces { converter := c } = .ok converted r ∧
      tryFlush r = .ok held r' ∧
      converted ++ held = c.convert pieces.flatten ∧
      converted <+: c.convert pieces.flatten := by
  obtain ⟨next, r, hrun, hend⟩ := holding_tryFeedAll h.blockwise h.refusal pieces
  refine ⟨_, r.flush.1, r, r.flush.2, hrun, ?_, hend.flush h.blockwise, List.take_prefix _ _⟩
  exact tryFlush_eq (hend.converter ▸ h.refusal)

theorem tryFeedAll_tryFlush_single_samples :
    let c := (Sinc.Shape.mk 3 2).exactly
    let pieces := [] :: (List.range 50).map fun k => [Float.ofNat k / 64]
    ∃ converted held r r', tryFeedAll pieces { converter := c } = .ok converted r ∧
      tryFlush r = .ok held r' ∧
      converted ++ held = c.convert pieces.flatten ∧
      converted <+: c.convert pieces.flatten := by
  intro c pieces
  have h : c.Between 24000 16000 := {
    source_pos := by decide
    target_pos := by decide
    inBlock := by decide
    outBlock := by decide
    refusal := rfl
    isLocal := Sinc.isLocal_exactly _ }
  exact tryFeedAll_tryFlush h pieces

end

end Resampler

end SpeechTransducer.Audio
