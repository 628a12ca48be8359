import SpeechTransducer.Proofs.Audio.Resampling

/-!
The buffer of a resampler between two pieces. It starts with the context of the next block and ends
with the last sample fed, and fewer samples wait behind the position than a block and its context
have; so the buffer stays short, however long the signal is and wherever it is cut. Where a run
takes parts of lists, both ends of each part lie in the list: it does the same with parts that have
to.
-/

namespace SpeechTransducer

/-- The part of a list between two positions that lie in it, in this order. -/
def slice? {α : Type} (i j : Int) (xs : List α) : Option (List α) :=
  if 0 ≤ i ∧ i ≤ j ∧ j ≤ xs.length then some (slice i j xs) else none

/-- The part of a list from a position on that lies in it. -/
def sliceFrom? {α : Type} (i : Int) (xs : List α) : Option (List α) :=
  if 0 ≤ i ∧ i ≤ xs.length then some (sliceFrom i xs) else none

namespace Audio

variable {S : Type}

/-- What is known of the numbers of samples in a conversion between two rates: the blocks are the
rates without their common divisor, and a signal that goes on behind some blocks becomes no fewer
samples than those blocks give. The second is asked for the context on both sides only, since the
share of a long signal may be rounded. -/
structure Converter.Counts (c : Converter S) (source target : Nat) : Prop where
  source_pos : 0 < source
  target_pos : 0 < target
  inBlock : c.inBlock = source / source.gcd target
  outBlock : c.outBlock = target / source.gcd target
  refusal : c.refusal = none
  length_convert : ∀ signal, ∀ blocks ≤ 2 * c.contextBlocks,
    blocks * c.inBlock < signal.length → blocks * c.outBlock ≤ (c.convert signal).length

theorem Converter.Between.counts [Zero S] {c : Converter S} {source target : Nat}
    (h : c.Between source target) : c.Counts source target where
  source_pos := h.source_pos
  target_pos := h.target_pos
  inBlock := h.inBlock
  outBlock := h.outBlock
  refusal := h.refusal
  length_convert := by
    intro signal blocks _ hlt
    rw [h.blockwise.length_convert, ← Converter.count_blocks h.blockwise.inBlock_pos]
    exact Converter.count_mono hlt.le

theorem Converter.Counts.inBlock_pos {c : Converter S} {source target : Nat}
    (h : c.Counts source target) : 0 < c.inBlock := by
  rw [h.inBlock]
  exact Nat.div_pos (Nat.gcd_le_left _ h.source_pos) (Nat.gcd_pos_of_pos_left _ h.source_pos)

namespace Resampler

/-- A run that fails unless all parts that it takes lie in their lists. -/
def run? (r : Resampler S) (segmentEnd stop : Int) : Option (List S × Resampler S) := do
  let c := r.converter
  let blocks (n : Int) : Int := n / c.inBlock * c.outBlock
  let start := max r.bufferStart (r.position - c.context)
  let segment ← slice? (start - r.bufferStart) (segmentEnd - r.bufferStart) r.buffer
  let converted := c.convert segment
  let first := blocks (r.position - start)
  let last := converted.length - blocks (segmentEnd - stop)
  let keep := max r.bufferStart (stop - c.context)
  let buffer ← sliceFrom? (keep - r.bufferStart) r.buffer
  let given ← slice? first last converted
  return (given, { r with position := stop, buffer, bufferStart := keep })

/-- Feeds samples by such a run, if there are enough. -/
def feed? (r : Resampler S) (samples : List S) : Option (List S × Resampler S) :=
  let r := r.push samples
  if r.reach ≤ r.position then some ([], r) else r.run? (r.reach + r.converter.context) r.reach

/-- Converts the samples held back by such a run, if there are any. -/
def flush? (r : Resampler S) : Option (List S × Resampler S) :=
  if r.fed ≤ r.position then some ([], r) else r.run? r.fed r.fed

variable {c : Converter S} {signal : List S} {done : Nat} {r : Resampler S}

theorem Holding.run?_eq (h : Holding c signal done r) (hpos : 0 < c.inBlock)
    {segmentEnd stop count : Nat} (hdone : done * c.inBlock ≤ stop) (hstop : stop ≤ segmentEnd)
    (hend : segmentEnd ≤ signal.length)
    (hcount : (c.convert (segment c signal done segmentEnd)).length =
      (done - c.kept done) * c.outBlock + count +
        (segmentEnd - stop) / c.inBlock * c.outBlock) :
    r.run? segmentEnd stop = some (r.run segmentEnd stop) := by
  have hmul : c.kept done * c.inBlock ≤ done * c.inBlock :=
    Nat.mul_le_mul_right _ (c.kept_le done)
  have hbuffer : r.bufferStart + r.buffer.length = signal.length := h.fed_eq
  have hsegment : slice? (r.bufferStart - r.bufferStart) (segmentEnd - r.bufferStart) r.buffer =
      some (segment c signal done segmentEnd) := by
    rw [slice?, if_pos, h.segment_eq (hdone.trans hstop)]
    rw [h.bufferStart] at hbuffer ⊢
    omega
  have hkeep : sliceFrom? (max r.bufferStart (stop - (c.context : Int)) - r.bufferStart) r.buffer =
      some (sliceFrom (max r.bufferStart (stop - (c.context : Int)) - r.bufferStart) r.buffer) := by
    rw [sliceFrom?, if_pos]
    omega
  have hgiven : slice? ((done - c.kept done) * c.outBlock : Nat)
        ((done - c.kept done) * c.outBlock + count : Nat)
        (c.convert (segment c signal done segmentEnd)) =
      some (slice ((done - c.kept done) * c.outBlock : Nat)
        ((done - c.kept done) * c.outBlock + count : Nat)
        (c.convert (segment c signal done segmentEnd))) := by
    rw [slice?, if_pos]
    omega
  simp only [run?, run, h.converter, h.start_eq, hsegment, h.segment_eq (hdone.trans hstop),
    h.first_eq hpos, last_eq hstop hcount, hkeep, hgiven, Option.bind_eq_bind, Option.bind_some,
    Option.pure_def]

section

variable (hlength : ∀ signal, ∀ blocks ≤ 2 * c.contextBlocks,
  blocks * c.inBlock < signal.length → blocks * c.outBlock ≤ (c.convert signal).length)

include hlength

/-- A segment becomes at least the samples that a run leaves out on both sides. -/
theorem exists_length_convert {segmentEnd stop : Nat} (hdone : done * c.inBlock < stop)
    (hstop : stop ≤ segmentEnd) (hcontext : segmentEnd - stop ≤ c.context)
    (hend : segmentEnd ≤ signal.length) :
    ∃ count, (c.convert (segment c signal done segmentEnd)).length =
      (done - c.kept done) * c.outBlock + count +
        (segmentEnd - stop) / c.inBlock * c.outBlock := by
  have hbefore : done - c.kept done ≤ c.contextBlocks := by
    rw [Converter.kept]
    omega
  have hbehind : (segmentEnd - stop) / c.inBlock ≤ c.contextBlocks := by
    rw [c.context_eq] at hcontext
    exact Nat.div_le_of_le_mul (Nat.mul_comm _ _ ▸ hcontext)
  have hfit : (done - c.kept done + (segmentEnd - stop) / c.inBlock) * c.inBlock <
      (segment c signal done segmentEnd).length := by
    have hmul : c.kept done * c.inBlock ≤ done * c.inBlock :=
      Nat.mul_le_mul_right _ (c.kept_le done)
    have hwhole := Nat.div_mul_le_self (segmentEnd - stop) c.inBlock
    rw [segment, List.length_drop, List.length_take_of_le hend, Nat.add_mul, Nat.sub_mul]
    omega
  have hle := hlength _ _ (by omega) hfit
  rw [Nat.add_mul] at hle
  obtain ⟨count, hcount⟩ := Nat.exists_eq_add_of_le hle
  exact ⟨count, by omega⟩

theorem Holding.feed?_eq (h : Holding c signal done r) (hpos : 0 < c.inBlock) (samples : List S) :
    r.feed? samples = some (r.feed samples) := by
  have hpush := h.push samples
  rw [feed?, Resampler.feed, advance]
  split
  · rfl
  · rename_i hlt
    obtain ⟨next, hreach, hsegmentEnd, hnext, hfit⟩ :=
      hpush.reach_eq hpos (Int.not_le.mp hlt)
    have hdone : done * c.inBlock < next * c.inBlock := Nat.mul_lt_mul_of_pos_right hnext hpos
    have hstop : next * c.inBlock ≤ (next + c.contextBlocks) * c.inBlock :=
      Nat.mul_le_mul_right _ (Nat.le_add_right _ _)
    have hcontext : (next + c.contextBlocks) * c.inBlock - next * c.inBlock ≤ c.context := by
      rw [c.context_eq, Nat.add_mul, Nat.add_sub_cancel_left]
    obtain ⟨count, hcount⟩ := exists_length_convert hlength hdone hstop hcontext hfit
    rw [hsegmentEnd, hreach]
    exact hpush.run?_eq hpos hdone.le hstop hfit hcount

theorem Holding.flush?_eq (h : Holding c signal done r) (hpos : 0 < c.inBlock) :
    r.flush? = some r.flush := by
  rw [flush?, Resampler.flush, h.fed_eq, h.position]
  split
  · rfl
  · rename_i hlt
    have hdone : done * c.inBlock < signal.length := by omega
    obtain ⟨count, hcount⟩ :=
      exists_length_convert hlength hdone le_rfl (by omega) (le_refl signal.length)
    exact h.run?_eq hpos h.le le_rfl le_rfl hcount

end

/-- A resampler that has converted all blocks whose context it has been fed. -/
structure Waiting (c : Converter S) (signal : List S) (done : Nat) (r : Resampler S) : Prop extends
    Holding c signal done r where
  unread : signal.length < done * c.inBlock + c.context + c.inBlock

theorem Waiting.start (hpos : 0 < c.inBlock) : Waiting c [] 0 { converter := c } where
  toHolding := .start c
  unread := by
    rw [List.length_nil]
    omega

theorem Holding.waiting_feed (h : Holding c signal done r) (hpos : 0 < c.inBlock)
    (samples : List S) : ∃ next, Waiting c (signal ++ samples) next (r.feed samples).2 := by
  have hpush := h.push samples
  have hblock : (0 : Int) < c.inBlock := Int.natCast_pos.mpr hpos
  have hlt := Int.lt_ediv_add_one_mul_self ((signal ++ samples).length - (c.context : Int)) hblock
  have hreach : (r.push samples).reach =
      ((signal ++ samples).length - (c.context : Int)) / c.inBlock * c.inBlock := by
    rw [reach, hpush.fed_eq, hpush.converter]
  rw [Int.add_mul, ← hreach] at hlt
  rw [Resampler.feed, advance]
  split
  · rename_i hle
    rw [hpush.position] at hle
    exact ⟨done, hpush, by omega⟩
  · rename_i hle
    obtain ⟨next, hnext, hsegmentEnd, hdone, hfit⟩ := hpush.reach_eq hpos (Int.not_le.mp hle)
    rw [hsegmentEnd, hnext]
    exact ⟨next, hpush.run_next hdone.le (c.le_of_fit hfit) _, by omega⟩

theorem Waiting.feedAll (h : Waiting c signal done r) (hpos : 0 < c.inBlock)
    (hrefusal : c.refusal = none) (pieces : List (List S)) :
    ∃ converted next r', tryFeedAll pieces r = .ok converted r' ∧
      Waiting c (signal ++ pieces.flatten) next r' := by
  induction pieces generalizing signal done r with
  | nil => exact ⟨[], done, r, rfl, by simpa using h⟩
  | cons piece pieces ih =>
      obtain ⟨middle, hmiddle⟩ := h.waiting_feed hpos piece
      obtain ⟨converted, next, r', hrun, hend⟩ := ih hmiddle
      refine ⟨(r.feed piece).1 ++ converted, next, r', ?_, by simpa using hend⟩
      rw [tryFeedAll_cons (h.converter ▸ hrefusal), hrun]

/-- A resampler between two pieces of a signal. -/
structure Settled (c : Converter S) (signal : List S) (r : Resampler S) : Prop where
  position_dvd : (c.inBlock : Int) ∣ r.position
  position_le : r.position ≤ signal.length
  bufferStart : r.bufferStart = max 0 (r.position - c.context)
  buffer : r.buffer = signal.drop r.bufferStart.toNat
  unread : signal.length - r.position < c.context + c.inBlock
  length_buffer : r.buffer.length ≤ 2 * c.context + c.inBlock - 1

theorem Waiting.settled (h : Waiting c signal done r) : Settled c signal r := by
  have hunread := h.unread
  have hstart : r.bufferStart = max 0 (r.position - c.context) := by
    rw [h.bufferStart, h.position, c.kept_mul]
  have hbuffer : r.bufferStart + r.buffer.length = signal.length := h.fed_eq
  constructor
  case position_dvd => simp [h.position]
  case position_le =>
    rw [h.position]
    exact_mod_cast h.le
  case bufferStart => exact hstart
  case buffer => rw [h.buffer, h.bufferStart, Int.toNat_natCast]
  case unread =>
    rw [h.position]
    omega
  case length_buffer =>
    rw [hstart, h.position] at hbuffer
    omega

/-- The buffer after any pieces of a signal, and the parts that the next run takes: for a further
piece, or for the samples held back. -/
theorem tryFeedAll_settled {source target : Nat} (h : c.Counts source target)
    (pieces : List (List S)) :
    ∃ converted r, tryFeedAll pieces { converter := c } = .ok converted r ∧
      Settled c pieces.flatten r ∧
      (∀ samples, r.feed? samples = some (r.feed samples)) ∧ r.flush? = some r.flush := by
  have hpos := h.inBlock_pos
  obtain ⟨converted, next, r, hrun, hend⟩ := (Waiting.start hpos).feedAll hpos h.refusal pieces
  refine ⟨converted, r, hrun, hend.settled, ?_, hend.flush?_eq h.length_convert hpos⟩
  intro samples
  exact hend.feed?_eq h.length_convert hpos samples

theorem tryFeedAll_settled_uneven_pieces :
    let c := (Sinc.Shape.mk 441 160).exactly
    let pieces := [List.replicate 2000 0.5, [], [-0.25], List.replicate 300 0.125]
    ∃ converted r, tryFeedAll pieces { converter := c } = .ok converted r ∧
      Settled c pieces.flatten r ∧
      (∀ samples, r.feed? samples = some (r.feed samples)) ∧ r.flush? = some r.flush := by
  intro c pieces
  have h : c.Between 44100 16000 := {
    source_pos := by decide
    target_pos := by decide
    inBlock := by decide
    outBlock := by decide
    refusal := rfl
    isLocal := Sinc.isLocal_exactly _ }
  exact tryFeedAll_settled h.counts pieces

end Resampler

end Audio

end SpeechTransducer
