import Mathlib.Algebra.Order.Ring.Nat
import SpeechTransducer.Audio.Sinc

/-!
Converters that work in blocks. Every sample that a converter gives belongs to an output block, and
depends on its place in the block and on the samples around one input block. A part of a signal that
starts at a block therefore becomes what the whole signal becomes there, as far as the samples that
its blocks look at lie in the part.
-/

namespace SpeechTransducer.Audio

variable {S : Type}

namespace Converter

/-- The number of samples that a signal of a length becomes, rounded up. -/
def count (c : Converter S) (length : Nat) : Nat :=
  (c.outBlock * length + c.inBlock - 1) / c.inBlock

variable {c : Converter S} {i n m start : Nat}

theorem lt_count (hpos : 0 < c.inBlock) : i < c.count n ↔ i * c.inBlock < c.outBlock * n := by
  rw [count, Nat.lt_iff_add_one_le, Nat.le_div_iff_mul_le hpos, Nat.add_mul, Nat.one_mul]
  omega

theorem count_mono (h : n ≤ m) : c.count n ≤ c.count m := by
  have hle := Nat.mul_le_mul_left c.outBlock h
  exact Nat.div_le_div_right (by omega)

/-- Every input block becomes an output block. -/
theorem count_add (hpos : 0 < c.inBlock) :
    c.count (start * c.inBlock + n) = start * c.outBlock + c.count n := by
  have hsum : c.outBlock * (start * c.inBlock + n) + c.inBlock - 1 =
      c.outBlock * n + c.inBlock - 1 + start * c.outBlock * c.inBlock := by
    rw [Nat.mul_add, ← Nat.mul_assoc, Nat.mul_comm c.outBlock start]
    omega
  rw [count, hsum, Nat.add_mul_div_right _ _ hpos, Nat.add_comm, count]

theorem count_zero (hpos : 0 < c.inBlock) : c.count 0 = 0 := Nat.div_eq_of_lt (by omega)

theorem count_blocks (hpos : 0 < c.inBlock) :
    c.count (start * c.inBlock) = start * c.outBlock := by
  have hadd : c.count (start * c.inBlock + 0) = start * c.outBlock + c.count 0 := count_add hpos
  rwa [count_zero hpos] at hadd

end Converter

variable [Zero S]

/-- The sample at a position of a signal, which is zero outside. -/
def sampleAt (signal : List S) (i : Int) : S := if 0 ≤ i then signal.getD i.toNat 0 else 0

theorem sampleAt_part {signal : List S} {start stop : Nat} {i : Int} (hlow : start = 0 ∨ 0 ≤ i)
    (hhigh : stop = signal.length ∨ start + i < stop) :
    sampleAt ((signal.take stop).drop start) i = sampleAt signal (start + i) := by
  obtain hneg | hpos := lt_or_ge i 0
  · obtain rfl | hge := hlow
    · simp only [sampleAt, Int.natCast_zero, Int.zero_add, Int.not_le.mpr hneg, if_false]
    · omega
  · obtain ⟨k, rfl⟩ := Int.eq_ofNat_of_zero_le hpos
    have hsum : ((start : Int) + k).toNat = start + k := by omega
    rw [sampleAt, sampleAt, if_pos hpos, if_pos (by omega), hsum, Int.toNat_natCast,
      List.getD_eq_getElem?_getD, List.getD_eq_getElem?_getD, List.getElem?_drop]
    obtain rfl | hlt := hhigh
    · rw [List.take_length]
    · rw [List.getElem?_take_of_lt (by omega)]

namespace Converter

/-- The samples that an output block is made of: those of its input block and, on both sides of it,
as many as the converter looks at. -/
def seen (c : Converter S) (signal : List S) (block : Nat) : List S :=
  (List.range (c.halfWidth + c.inBlock + c.halfWidth)).map fun (k : Nat) =>
    sampleAt signal ((block * c.inBlock : Nat) - c.halfWidth + k)

/-- Every sample depends only on its place in its block and on what the block sees. -/
def IsLocal (c : Converter S) : Prop :=
  ∃ sample : Nat → List S → S, ∀ signal,
    c.convert signal = (List.range (c.count signal.length)).map fun i =>
      sample (i % c.outBlock) (c.seen signal (i / c.outBlock))

/-- What is known of a converter between two rates: its blocks are the rates without their common
divisor, it converts every signal, and it does so block by block. -/
structure Between (c : Converter S) (source target : Nat) : Prop where
  source_pos : 0 < source
  target_pos : 0 < target
  inBlock : c.inBlock = source / source.gcd target
  outBlock : c.outBlock = target / source.gcd target
  refusal : c.refusal = none
  isLocal : c.IsLocal

structure Blockwise (c : Converter S) : Prop where
  inBlock_pos : 0 < c.inBlock
  outBlock_pos : 0 < c.outBlock
  isLocal : c.IsLocal

variable {c : Converter S} {signal : List S} {i start stop block : Nat}

theorem Between.blockwise {source target : Nat} (h : c.Between source target) : c.Blockwise where
  inBlock_pos := by
    rw [h.inBlock]
    exact Nat.div_pos (Nat.gcd_le_left _ h.source_pos) (Nat.gcd_pos_of_pos_left _ h.source_pos)
  outBlock_pos := by
    rw [h.outBlock]
    exact Nat.div_pos (Nat.gcd_le_right _ h.target_pos) (Nat.gcd_pos_of_pos_left _ h.source_pos)
  isLocal := h.isLocal

theorem sampleAt_seen {k : Nat} (hk : k < c.halfWidth + c.inBlock + c.halfWidth) :
    sampleAt (c.seen signal block) k =
      sampleAt signal ((block * c.inBlock : Nat) - c.halfWidth + k) := by
  rw [sampleAt, if_pos (Int.natCast_nonneg k), Int.toNat_natCast, List.getD_eq_getElem?_getD, seen,
    List.getElem?_map, List.getElem?_range hk]
  rfl

theorem seen_part (hlow : start = 0 ∨ c.halfWidth ≤ block * c.inBlock)
    (hhigh : stop = signal.length ∨ (start + block + 1) * c.inBlock + c.halfWidth ≤ stop) :
    c.seen ((signal.take stop).drop (start * c.inBlock)) block = c.seen signal (start + block) := by
  refine List.map_congr_left fun k hk => ?_
  rw [List.mem_range] at hk
  rw [Nat.add_mul, Nat.add_mul, Nat.one_mul] at hhigh
  rw [sampleAt_part, Nat.add_mul]
  · congr 1
    push_cast
    omega
  · obtain rfl | hle := hlow
    · exact .inl (Nat.zero_mul _)
    · exact .inr (by omega)
  · obtain hend | hle := hhigh
    · exact .inl hend
    · exact .inr (by push_cast at hle ⊢; omega)

theorem Blockwise.length_convert (h : c.Blockwise) (signal : List S) :
    (c.convert signal).length = c.count signal.length := by
  obtain ⟨sample, hsample⟩ := h.isLocal
  rw [hsample, List.length_map, List.length_range]

/-- A part of a signal becomes what the whole signal becomes there, wherever a block of the part
sees what it sees in the whole. -/
theorem Blockwise.getElem?_part (h : c.Blockwise) (hstart : start * c.inBlock ≤ stop)
    (hstop : stop ≤ signal.length) (hlow : start = 0 ∨ c.halfWidth ≤ i / c.outBlock * c.inBlock)
    (hhigh : stop = signal.length ∨
      (start + i / c.outBlock + 1) * c.inBlock + c.halfWidth ≤ stop) :
    (c.convert ((signal.take stop).drop (start * c.inBlock)))[i]? =
      (c.convert signal)[start * c.outBlock + i]? := by
  obtain ⟨sample, hsample⟩ := h.isLocal
  obtain ⟨rest, rfl⟩ := Nat.exists_eq_add_of_le hstart
  have hlen : ((signal.take (start * c.inBlock + rest)).drop (start * c.inBlock)).length =
      rest := by
    rw [List.length_drop, List.length_take_of_le hstop, Nat.add_sub_cancel_left]
  have hcount : i < c.count rest ↔ start * c.outBlock + i < c.count signal.length := by
    -- The part ends with the signal, or the block of the sample lies in both as a whole.
    obtain hend | hle := hhigh
    · rw [← hend, count_add h.inBlock_pos, Nat.add_lt_add_iff_left]
    · have hblock : (i / c.outBlock + 1) * c.inBlock ≤ rest := by
        rw [Nat.add_assoc, Nat.add_mul] at hle
        omega
      have hin : i < c.count rest := by
        rw [lt_count h.inBlock_pos]
        calc i * c.inBlock < c.outBlock * (i / c.outBlock + 1) * c.inBlock :=
              Nat.mul_lt_mul_of_pos_right (Nat.lt_mul_div_succ i h.outBlock_pos) h.inBlock_pos
          _ = c.outBlock * ((i / c.outBlock + 1) * c.inBlock) := Nat.mul_assoc _ _ _
          _ ≤ c.outBlock * rest := Nat.mul_le_mul_left _ hblock
      have hmono : c.count (start * c.inBlock + rest) ≤ c.count signal.length := count_mono hstop
      rw [count_add h.inBlock_pos] at hmono
      omega
  have hplace : (start * c.outBlock + i) % c.outBlock = i % c.outBlock :=
    Nat.mul_add_mod_self_right _ _ _
  have hblock : (start * c.outBlock + i) / c.outBlock = start + i / c.outBlock := by
    rw [Nat.add_comm, Nat.add_mul_div_right _ _ h.outBlock_pos, Nat.add_comm]
  rw [hsample, hsample, hlen]
  by_cases hi : i < c.count rest
  · rw [List.getElem?_map, List.getElem?_map, List.getElem?_range hi,
      List.getElem?_range (hcount.mp hi), Option.map_some, Option.map_some, hplace, hblock,
      seen_part hlow hhigh]
  · have hi' := mt hcount.mpr hi
    rw [List.getElem?_eq_none (by simpa using hi), List.getElem?_eq_none (by simpa using hi')]

end Converter

namespace Sinc

theorem sampleAt_toArray (signal : List Float) (i : Int) :
    sampleAt signal.toArray i = Audio.sampleAt signal i := by
  rw [sampleAt, Audio.sampleAt]
  split
  · rw [Array.getD_eq_getD_getElem?, List.getElem?_toArray, List.getD_eq_getElem?_getD]
  · rfl

/-- A weighted sum looks at nothing but the samples that have weights. -/
theorem sum_congr (k : Kernel) {signal other : Array Float} {start start' : Int}
    (h : ∀ i < k.weights.length,
      sampleAt signal (start + k.first + i) = sampleAt other (start' + k.first + i)) :
    k.sum signal start = k.sum other start' := by
  rw [Kernel.sum, Kernel.sum]
  generalize start + k.first = i at h ⊢
  generalize start' + k.first = i' at h ⊢
  generalize (0 : Float) = acc
  generalize k.weights = weights at h ⊢
  induction weights generalizing i i' acc with
  | nil => rfl
  | cons w ws ih =>
      have hfirst : sampleAt signal i = sampleAt other i' := by
        simpa using h 0 (Nat.succ_pos _)
      rw [Kernel.sum.go, Kernel.sum.go, hfirst]
      refine ih _ _ _ fun j hj => ?_
      have hnext := h (j + 1) (Nat.succ_lt_succ hj)
      rwa [Int.natCast_succ, Int.add_comm (j : Int), ← Int.add_assoc, ← Int.add_assoc] at hnext

/-- The weights of a sample reach no further than the context of its block. -/
theorem kernel_reach (s : Shape) (j : Nat) :
    -(s.halfWidth : Int) ≤ (s.kernel j).first ∧ ∀ i < (s.kernel j).weights.length,
      (s.kernel j).first + i < s.halfWidth + s.source := by
  simp only [Shape.kernel, List.length_map, List.length_range]
  refine ⟨le_max_left _ _, fun i hi => ?_⟩
  omega

/-- The conversion between two rates, with the number of its samples rounded up exactly. -/
def Shape.exactly (s : Shape) : Converter Float where
  inBlock := s.source
  outBlock := s.target
  halfWidth := s.halfWidth
  convert := fun signal =>
    (List.range ((s.target * signal.length + s.source - 1) / s.source)).map fun p =>
      LogScale.single ((s.kernel (p % s.target)).sum signal.toArray (p / s.target * s.source : Nat))

/-- Finite signals whose number of samples needs no rounding are converted so. -/
theorem convert_eq_exactly {s : Shape} {c : Converter Float} (h : s.converter = .ok c)
    {signal : List Float} (hfinite : ∀ x ∈ signal, (x - x == 0) = true)
    (hcount : s.count signal.length = s.exactly.count signal.length) :
    c.convert signal = s.exactly.convert signal := by
  rw [Shape.converter] at h
  split_ifs at h with hzero
  obtain rfl := Except.ok.inj h
  have hpos : 0 < s.target := by omega
  simp only [Shape.convert, Shape.exactly, List.size_toArray, hcount]
  refine List.map_congr_left fun p _ => ?_
  have hplace : p % s.target < s.target := Nat.mod_lt p hpos
  have hall : signal.toArray.all (fun x => x - x == 0) = true := by simpa using hfinite
  simp only [Thunk.get, Array.getElem?_map, Array.getElem?_range, if_pos hplace, Option.map_some]
  rw [List.size_toArray] at hall
  rw [if_pos hall]

theorem isLocal_exactly (s : Shape) : s.exactly.IsLocal := by
  refine ⟨fun j seen => LogScale.single ((s.kernel j).sum seen.toArray s.halfWidth), ?_⟩
  intro signal
  refine List.map_congr_left fun p _ => congrArg LogScale.single (sum_congr _ fun i hi => ?_)
  obtain ⟨hfirst, hlast⟩ := kernel_reach s (p % s.target)
  have hend := hlast i hi
  obtain ⟨k, hk⟩ : ∃ k : Nat, (s.halfWidth : Int) + (s.kernel (p % s.target)).first + i = k :=
    Int.eq_ofNat_of_zero_le (by omega)
  have hin : k < s.exactly.halfWidth + s.exactly.inBlock + s.exactly.halfWidth := by
    simp only [Shape.exactly]
    omega
  rw [sampleAt_toArray, sampleAt_toArray, hk, Converter.sampleAt_seen hin]
  congr 1
  simp only [Shape.exactly]
  omega

end Sinc

end SpeechTransducer.Audio
