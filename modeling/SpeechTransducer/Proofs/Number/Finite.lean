import Mathlib
import SpeechTransducer.Number.Binary

/-!
Which double-precision numbers are finite: all those whose exponent has a bit that is not set. The
number nearest to a fraction is finite if and only if the fraction lies below the middle between the
largest finite number and the next power of two.
-/

namespace SpeechTransducer.Number

open Float.Model

/-- The exponent of a number, as its bits have it. -/
def exponentBits (b : BitVec 64) : BitVec 11 :=
  @UnpackedFloat.unpackExponent Format.binary64 b

theorem toNat_exponentBits (b : BitVec 64) :
    (exponentBits b).toNat = b.toNat / 2 ^ 52 % 2 ^ 11 := by
  simp [exponentBits, UnpackedFloat.unpackExponent, Nat.shiftRight_eq_div_pow]

theorem exponentBits_ne_iff (b : BitVec 64) :
    exponentBits b ≠ -1#11 ↔ b.toNat / 2 ^ 52 % 2 ^ 11 < 2047 := by
  have hall : (-1#11).toNat = 2047 := rfl
  rw [Ne, ← BitVec.toNat_inj, toNat_exponentBits, hall]
  omega

theorem isFinite_unpack (b : BitVec 64) :
    (UnpackedFloat.unpack Format.binary64 b).isFinite = true ↔ exponentBits b ≠ -1#11 := by
  rw [UnpackedFloat.unpack, exponentBits]
  dsimp only
  split
  · rename_i hall
    split <;> simp [UnpackedFloat.isFinite, hall]
  · rename_i hall
    split
    · split <;> exact iff_of_true rfl hall
    · exact iff_of_true rfl hall

/-- A number is finite unless all bits of its exponent are set. -/
theorem isFinite_ofBits (a : UInt64) :
    (Float.ofBits a).isFinite = true ↔ a.toNat / 2 ^ 52 % 2 ^ 11 < 2047 := by
  have hmodel : (Float.ofBits a).isFinite =
      (UnpackedFloat.unpack Format.binary64 (UnpackedFloat.pack Format.binary64
        (UnpackedFloat.unpack Format.binary64 a.toBitVec))).isFinite := rfl
  rw [hmodel, ← UInt64.toNat_toBitVec, ← exponentBits_ne_iff, UnpackedFloat.pack_unpack]
  split
  · -- All that are not numbers are packed into one.
    rename_i hnan
    have hall : exponentBits a.toBitVec = -1#11 := (of_decide_eq_true hnan).1
    rw [UnpackedFloat.unpack_packedNaN]
    exact iff_of_false Bool.false_ne_true (not_not.mpr hall)
  · exact isFinite_unpack a.toBitVec

section

variable {num den m : Nat} {q : Int}

theorem exponent_packBits (negative : Bool) (hm : m ≤ 2 ^ 53) :
    packBits negative m q / 2 ^ 52 % 2 ^ 11 < 2047 ↔
      m < 2 ^ 52 ∨ q < 971 ∨ q = 971 ∧ m < 2 ^ 53 := by
  obtain ⟨sign, hsign, hcases⟩ : ∃ sign, (if negative then 2 ^ 63 else 0) = sign ∧
      (sign = 0 ∨ sign = 2 ^ 63) := by
    cases negative
    · exact ⟨0, rfl, .inl rfl⟩
    · exact ⟨2 ^ 63, rfl, .inr rfl⟩
  simp only [packBits, Nat.shiftLeft_eq, Nat.one_mul, beq_iff_eq]
  rw [hsign]
  by_cases hfull : m = 2 ^ 53
  · rw [if_pos hfull]
    dsimp only
    split_ifs <;> omega
  · rw [if_neg hfull]
    dsimp only
    split_ifs <;> omega

theorem isFinite_packBits (negative : Bool) (hm : m ≤ 2 ^ 53) :
    (Float.ofBits (packBits negative m q).toUInt64).isFinite = true ↔
      m < 2 ^ 52 ∨ q < 971 ∨ q = 971 ∧ m < 2 ^ 53 := by
  have hbits : (packBits negative m q).toUInt64.toNat / 2 ^ 52 % 2 ^ 11 =
      packBits negative m q / 2 ^ 52 % 2 ^ 11 := by
    rw [Nat.toUInt64_eq, UInt64.toNat_ofNat']
    omega
  rw [isFinite_ofBits, hbits, exponent_packBits negative hm]

theorem div_le_roundDiv (num den : Nat) : num / den ≤ roundDiv num den := by
  rw [roundDiv]
  split_ifs <;> omega

theorem roundDiv_le_succ (num den : Nat) : roundDiv num den ≤ num / den + 1 := by
  rw [roundDiv]
  split_ifs <;> omega

/-- What is less than half below an even number is rounded to less. -/
theorem roundDiv_lt_iff (hden : 0 < den) (heven : m % 2 = 0) :
    roundDiv num den < m ↔ 2 * num + den < 2 * (den * m) := by
  have hlow := div_le_roundDiv num den
  have hhigh := roundDiv_le_succ num den
  have hnum := Nat.div_add_mod num den
  have hrem := Nat.mod_lt num hden
  obtain hlt | heq | hgt := lt_trichotomy (num / den + 1) m
  · refine iff_of_true (by omega) ?_
    have hmul : den * (num / den + 2) ≤ den * m := Nat.mul_le_mul_left den hlt
    rw [Nat.mul_add] at hmul
    omega
  · have hmul : den * (num / den + 1) = den * m := congrArg (den * ·) heq
    rw [Nat.mul_add] at hmul
    rw [roundDiv]
    split_ifs <;> omega
  · refine iff_of_false (by omega) ?_
    have hmul : den * m ≤ den * (num / den) := Nat.mul_le_mul_left den (by omega)
    omega

theorem le_roundDiv (hden : 0 < den) (h : m * den ≤ num) : m ≤ roundDiv num den :=
  ((Nat.le_div_iff_mul_le hden).mpr h).trans (div_le_roundDiv num den)

theorem roundDiv_le (hden : 0 < den) (h : num < m * den) : roundDiv num den ≤ m :=
  (roundDiv_le_succ num den).trans ((Nat.div_lt_iff_lt_mul hden).mpr h)

theorem cast_shiftLeft (n : Nat) (hq : 0 ≤ q) : ((n <<< q.toNat : Nat) : ℚ) = n * 2 ^ q := by
  rw [Nat.shiftLeft_eq, Nat.cast_mul, Nat.cast_pow, Nat.cast_ofNat, ← zpow_natCast,
    Int.toNat_of_nonneg hq]

/-- A fraction that is scaled by two to the power `-q` is rounded like a fraction. -/
theorem scaledRound_eq (num : Nat) (hden : 0 < den) (q : Int) : ∃ num' den', 0 < den' ∧
    scaledRound num den q = roundDiv num' den' ∧ (num' / den' : ℚ) * 2 ^ q = num / den := by
  have hden' : (den : ℚ) ≠ 0 := by exact_mod_cast hden.ne'
  by_cases hq : 0 ≤ q
  · refine ⟨num, den <<< q.toNat, ?_, if_pos hq, ?_⟩
    · rw [Nat.shiftLeft_eq]
      positivity
    · rw [cast_shiftLeft den hq]
      field_simp
  · refine ⟨num <<< (-q).toNat, den, hden, if_neg hq, ?_⟩
    rw [cast_shiftLeft num (by omega), zpow_neg]
    field_simp

theorem scaledRound_lt_iff (hden : 0 < den) (heven : m % 2 = 0) :
    scaledRound num den q < m ↔ (num / den : ℚ) < (m - 1 / 2) * 2 ^ q := by
  obtain ⟨num', den', hpos, hround, hvalue⟩ := scaledRound_eq num hden q
  have hpos' : (0 : ℚ) < den' := by exact_mod_cast hpos
  rw [hround, roundDiv_lt_iff hpos heven, ← hvalue, mul_lt_mul_iff_left₀ (by positivity),
    div_lt_iff₀ hpos', ← Nat.cast_lt (α := ℚ)]
  push_cast
  constructor <;> intro h <;> linarith

theorem le_scaledRound (hden : 0 < den) (h : (m : ℚ) * 2 ^ q ≤ num / den) :
    m ≤ scaledRound num den q := by
  obtain ⟨num', den', hpos, hround, hvalue⟩ := scaledRound_eq num hden q
  have hpos' : (0 : ℚ) < den' := by exact_mod_cast hpos
  rw [← hvalue, mul_le_mul_iff_left₀ (by positivity), le_div_iff₀ hpos'] at h
  rw [hround]
  exact le_roundDiv hpos (by exact_mod_cast h)

theorem scaledRound_le (hden : 0 < den) (h : (num / den : ℚ) < m * 2 ^ q) :
    scaledRound num den q ≤ m := by
  obtain ⟨num', den', hpos, hround, hvalue⟩ := scaledRound_eq num hden q
  have hpos' : (0 : ℚ) < den' := by exact_mod_cast hpos
  rw [← hvalue, mul_lt_mul_iff_left₀ (by positivity), div_lt_iff₀ hpos'] at h
  rw [hround]
  exact roundDiv_le hpos (by exact_mod_cast h)

theorem two_pow_le_iff (num : Nat) (hden : 0 < den) (k : Int) :
    (if 0 ≤ k then den <<< k.toNat ≤ num else den ≤ num <<< (-k).toNat) ↔
      (2 : ℚ) ^ k ≤ num / den := by
  have hden' : (0 : ℚ) < den := by exact_mod_cast hden
  rw [le_div_iff₀ hden']
  split_ifs with hk
  · rw [← Nat.cast_le (α := ℚ), cast_shiftLeft den hk, mul_comm]
  · rw [← Nat.cast_le (α := ℚ), cast_shiftLeft num (by omega), zpow_neg, ← div_eq_mul_inv,
      le_div_iff₀ (by positivity), mul_comm]

theorem log2_between {n : Nat} (hn : 0 < n) :
    (2 : ℚ) ^ (n.log2 : Int) ≤ n ∧ (n : ℚ) < 2 ^ ((n.log2 : Int) + 1) := by
  rw [zpow_natCast, ← Nat.cast_succ, zpow_natCast]
  exact ⟨by exact_mod_cast Nat.log2_self_le hn.ne', by exact_mod_cast Nat.lt_log2_self⟩

/-- A fraction lies between two powers of two, and the lower one sets the exponent of its number. -/
theorem ofFraction_eq (negative : Bool) (hnum : 0 < num) (hden : 0 < den) :
    ∃ e : Int, (2 : ℚ) ^ e ≤ num / den ∧ (num / den : ℚ) < 2 ^ (e + 1) ∧
      ofFraction negative num den = Float.ofBits
        (packBits negative (scaledRound num den (max (-1074) (e - 52)))
          (max (-1074) (e - 52))).toUInt64 := by
  obtain ⟨hnumLow, hnumHigh⟩ := log2_between hnum
  obtain ⟨hdenLow, hdenHigh⟩ := log2_between hden
  have hden' : (0 : ℚ) < den := by exact_mod_cast hden
  have hne : (num == 0) = false := by simpa using hnum.ne'
  rw [ofFraction, hne, if_neg Bool.false_ne_true]
  generalize hk : (num.log2 : Int) - den.log2 = k
  have hlow : (2 : ℚ) ^ (k - 1) ≤ num / den := by
    rw [le_div_iff₀ hden']
    calc (2 : ℚ) ^ (k - 1) * den ≤ 2 ^ (k - 1) * 2 ^ ((den.log2 : Int) + 1) := by gcongr
      _ = 2 ^ (num.log2 : Int) := by
        rw [← zpow_add₀ two_ne_zero, ← hk]
        congr 1
        ring
      _ ≤ num := hnumLow
  have hhigh : (num / den : ℚ) < 2 ^ (k + 1) := by
    rw [div_lt_iff₀ hden']
    calc (num : ℚ) < 2 ^ ((num.log2 : Int) + 1) := hnumHigh
      _ = 2 ^ (k + 1) * 2 ^ (den.log2 : Int) := by
        rw [← zpow_add₀ two_ne_zero, ← hk]
        congr 1
        ring
      _ ≤ 2 ^ (k + 1) * den := by gcongr
  have hfull := two_pow_le_iff num hden k
  dsimp only
  by_cases h : if 0 ≤ k then den <<< k.toNat ≤ num else den ≤ num <<< (-k).toNat
  · refine ⟨k, hfull.mp h, hhigh, ?_⟩
    rw [if_pos h]
  · refine ⟨k - 1, hlow, ?_, ?_⟩
    · rw [Int.sub_add_cancel]
      exact not_le.mp (mt hfull.mpr h)
    · rw [if_neg h, show k - 1 - 52 = k - 53 by ring]

/-- The least fraction that is rounded to infinity: the middle between the largest finite number and
the next power of two. -/
def leastInfinite : ℚ := ((2 ^ 53 : Nat) - 1 / 2) * 2 ^ (971 : Int)

theorem leastInfinite_between :
    (2 : ℚ) ^ (1023 : Int) ≤ leastInfinite ∧ leastInfinite ≤ 2 ^ (1024 : Int) := by
  have hlow : (2 : ℚ) ^ (1023 : Int) = 2 ^ (52 : Int) * 2 ^ (971 : Int) := by
    rw [← zpow_add₀ two_ne_zero]
    rfl
  have hhigh : (2 : ℚ) ^ (1024 : Int) = 2 ^ (53 : Int) * 2 ^ (971 : Int) := by
    rw [← zpow_add₀ two_ne_zero]
    rfl
  rw [leastInfinite, hlow, hhigh]
  constructor <;> gcongr <;> norm_num

/-- The number nearest to a fraction is finite if and only if the fraction is not too large. -/
theorem isFinite_ofFraction (negative : Bool) (num : Nat) (hden : 0 < den) :
    (ofFraction negative num den).isFinite = true ↔ (num / den : ℚ) < leastInfinite := by
  obtain ⟨hboundLow, hboundHigh⟩ := leastInfinite_between
  obtain rfl | hnum := Nat.eq_zero_or_pos num
  · refine iff_of_true ?_ ?_
    · exact (isFinite_packBits negative (Nat.zero_le _)).mpr (.inl (by norm_num))
    · rw [Nat.cast_zero, zero_div]
      exact (by positivity : (0 : ℚ) < 2 ^ (1023 : Int)).trans_le hboundLow
  obtain ⟨e, hlow, hhigh, hvalue⟩ := ofFraction_eq negative hnum hden
  rw [hvalue]
  generalize hq : max (-1074) (e - 52) = q
  have hwidth : scaledRound num den q ≤ 2 ^ 53 := by
    refine scaledRound_le hden (hhigh.trans_le ?_)
    calc (2 : ℚ) ^ (e + 1) ≤ 2 ^ (53 + q) := zpow_le_zpow_right₀ (by norm_num) (by omega)
      _ = (2 ^ 53 : Nat) * 2 ^ q := by
        rw [zpow_add₀ two_ne_zero]
        norm_num
  rw [isFinite_packBits negative hwidth]
  obtain he | rfl | he := lt_trichotomy e 1023
  · refine iff_of_true (.inr (.inl (by omega))) (hhigh.trans_le (le_trans ?_ hboundLow))
    exact zpow_le_zpow_right₀ (by norm_num) (by omega)
  · obtain rfl : q = 971 := by omega
    rw [leastInfinite, ← scaledRound_lt_iff hden (by norm_num)]
    omega
  · have hfull : 2 ^ 52 ≤ scaledRound num den q := by
      refine le_scaledRound hden (le_trans (le_of_eq ?_) hlow)
      rw [show e = 52 + q by omega, zpow_add₀ two_ne_zero]
      norm_num
    refine iff_of_false (by omega) (not_lt.mpr (hboundHigh.trans (le_trans ?_ hlow)))
    exact zpow_le_zpow_right₀ (by norm_num) (by omega)

end

end SpeechTransducer.Number
