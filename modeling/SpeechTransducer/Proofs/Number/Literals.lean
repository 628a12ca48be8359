import SpeechTransducer.Number.Literal
import SpeechTransducer.Proofs.Number.Finite

/-!
Written numbers that are finite. Of a decimal number it is its value that matters, and not how it is
written; the shortcuts for powers of ten far outside the range of doubles are exact, since a written
number has no more digits than it counts.
-/

namespace SpeechTransducer.Number

variable {s : String} {literal : Literal}

/-- A written number stands for a number that rounds to a finite one. -/
def Literal.InRange : Literal → Prop
  | undefined => False
  | infinite _ => False
  | decimal _ digits _ exponent => (digits * 10 ^ exponent : ℚ) < leastInfinite

/-- The digits of a number are as many as are counted, or fewer. -/
def Literal.Counted : Literal → Prop
  | decimal _ digits count _ => digits < 10 ^ count
  | _ => True

theorem digitValue?_lt {c : Char} {d : Nat} (h : Text.digitValue? c = some d) : d < 10 := by
  rw [Text.digitValue?, Option.map_eq_some_iff] at h
  obtain ⟨start, hstart, rfl⟩ := h
  have hblock := List.find?_some hstart
  simp only [Bool.and_eq_true, decide_eq_true_eq] at hblock
  omega

/-- Digits that are read on are counted, if those before were. -/
theorem moreDigits_lt {cs rest : List Char} {value count value' count' : Nat}
    (h : moreDigits value count cs = (value', count', rest)) (hvalue : value < 10 ^ count) :
    value' < 10 ^ count' := by
  have hnext {c : Char} {d : Nat} (hd : Text.digitValue? c = some d) {value count : Nat}
      (hvalue : value < 10 ^ count) : 10 * value + d < 10 ^ (count + 1) := by
    have hten := digitValue?_lt hd
    rw [Nat.pow_succ]
    omega
  fun_induction moreDigits value count cs with
  | case2 value count _ _ _ hd ih => exact ih h (hnext hd hvalue)
  | case4 value count _ _ _ _ _ _ hd ih => exact ih h (hnext hd hvalue)
  | case1 | case3 | case5 | case6 =>
      cases h
      exact hvalue

theorem counted_of_readDecimal {negative : Bool} {cs : List Char}
    (h : readDecimal negative cs = some literal) : literal.Counted := by
  rcases hwhole : moreDigits 0 0 cs with ⟨whole, count, rest⟩
  have hlt : whole < 10 ^ count := moreDigits_lt hwhole (by decide)
  rw [readDecimal, hwhole] at h
  dsimp only at h
  split at h
  · rename_i ds
    rcases hpart : moreDigits 0 0 ds with ⟨part, places, rest⟩
    have hpartLt : part < 10 ^ places := moreDigits_lt hpart (by decide)
    rw [hpart] at h
    dsimp only at h
    split at h
    · cases h
    · obtain ⟨e, -, rfl⟩ := Option.map_eq_some_iff.mp h
      have hmul : (whole + 1) * 10 ^ places ≤ 10 ^ count * 10 ^ places :=
        Nat.mul_le_mul_right _ hlt
      rw [Nat.add_mul, Nat.one_mul, ← Nat.pow_add] at hmul
      exact lt_of_lt_of_le (Nat.add_lt_add_left hpartLt _) hmul
  · split at h
    · cases h
    · obtain ⟨e, -, rfl⟩ := Option.map_eq_some_iff.mp h
      exact hlt

theorem counted_of_readLiteral (h : readLiteral s = some literal) : literal.Counted := by
  rw [readLiteral] at h
  dsimp only at h
  split_ifs at h
  · exact Option.some.inj h ▸ trivial
  · exact Option.some.inj h ▸ trivial
  · exact counted_of_readDecimal h

theorem decimal_le_one {digits count : Nat} {exponent : Int} (hcounted : digits < 10 ^ count)
    (hsmall : digits = 0 ∨ exponent + count < -400) : (digits * 10 ^ exponent : ℚ) ≤ 1 := by
  obtain rfl | hsmall := hsmall
  · simp
  · have hdigits : (digits : ℚ) ≤ 10 ^ (count : Int) := by
      rw [zpow_natCast]
      exact_mod_cast hcounted.le
    calc (digits * 10 ^ exponent : ℚ) ≤ 10 ^ (count : Int) * 10 ^ exponent := by gcongr
      _ = 10 ^ (count + exponent) := (zpow_add₀ (by norm_num) _ _).symm
      _ ≤ 1 := zpow_le_one_of_nonpos₀ (by norm_num) (by omega)

theorem two_pow_le_ten_pow {exponent : Int} (h : 400 < exponent) :
    (2 : ℚ) ^ (1024 : Int) ≤ 10 ^ exponent := by
  calc (2 : ℚ) ^ (1024 : Int) ≤ 2 ^ (3 * exponent) := zpow_le_zpow_right₀ (by norm_num) (by omega)
    _ = 8 ^ exponent := by
      rw [zpow_mul]
      norm_num
    _ ≤ 10 ^ exponent := zpow_le_zpow_left₀ (by omega) (by norm_num) (by norm_num)

theorem isFinite_decimal (negative : Bool) {digits count : Nat} (exponent : Int)
    (hcounted : digits < 10 ^ count) :
    (Literal.decimal negative digits count exponent).toFloat.isFinite = true ↔
      (digits * 10 ^ exponent : ℚ) < leastInfinite := by
  obtain ⟨hlow, hhigh⟩ := leastInfinite_between
  rw [Literal.toFloat]
  split_ifs with hsmall hlarge hwhole
  · have hdigits : (digits * 10 ^ exponent : ℚ) ≤ 1 := decimal_le_one hcounted (by
      simpa [beq_iff_eq] using hsmall)
    have hone : (1 : ℚ) < 2 ^ (1023 : Int) := one_lt_zpow₀ (by norm_num) (by norm_num)
    have hzero : ((0 : Nat) / (1 : Nat) : ℚ) < leastInfinite := by
      rw [Nat.cast_zero, zero_div]
      exact (zero_lt_one.trans hone).trans_le hlow
    refine iff_of_true ((isFinite_ofFraction negative 0 Nat.one_pos).mpr hzero) ?_
    exact hdigits.trans_lt (hone.trans_le hlow)
  · refine iff_of_false ?_ (not_lt.mpr (hhigh.trans ?_))
    · rw [show (1 <<< 53 : Nat) = 2 ^ 53 from rfl, isFinite_packBits negative le_rfl]
      omega
    · have hdigits : (1 : ℚ) ≤ digits := by
        have hne : digits ≠ 0 := fun hzero => hsmall (by simp [hzero])
        exact_mod_cast Nat.one_le_iff_ne_zero.mpr hne
      calc (2 : ℚ) ^ (1024 : Int) ≤ 10 ^ exponent := two_pow_le_ten_pow hlarge
        _ ≤ digits * 10 ^ exponent := le_mul_of_one_le_left (by positivity) hdigits
  · rw [isFinite_ofFraction negative _ Nat.one_pos]
    have hpow : ((10 ^ exponent.toNat : Nat) : ℚ) = 10 ^ exponent := by
      rw [Nat.cast_pow, Nat.cast_ofNat, ← zpow_natCast, Int.toNat_of_nonneg hwhole]
    rw [Nat.pow_eq, Nat.cast_mul, hpow, Nat.cast_one, div_one]
  · rw [Nat.pow_eq, isFinite_ofFraction negative _ (Nat.pow_pos (by decide : 0 < 10))]
    have hpow : ((10 ^ (-exponent).toNat : Nat) : ℚ) = (10 ^ exponent)⁻¹ := by
      rw [Nat.cast_pow, Nat.cast_ofNat, ← zpow_natCast, Int.toNat_of_nonneg (by omega), zpow_neg]
    rw [hpow, div_inv_eq_mul]

/-- A written number becomes a finite one if and only if it is in range. -/
theorem isFinite_toFloat (h : literal.Counted) :
    literal.toFloat.isFinite = true ↔ literal.InRange := by
  cases literal with
  | undefined => exact iff_of_false (by decide +kernel) id
  | infinite negative =>
      refine iff_of_false ?_ id
      cases negative <;> decide +kernel
  | decimal negative digits count exponent => exact isFinite_decimal negative exponent h

end SpeechTransducer.Number
