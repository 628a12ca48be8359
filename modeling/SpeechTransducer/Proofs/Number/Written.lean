import Mathlib.Algebra.Order.Ring.Nat
import Mathlib.Data.List.Basic
import SpeechTransducer.Number.Literal
import SpeechTransducer.Proofs.Text.Cutting

/-!
Integers as they are written: a minus or none, and decimal digits. They are read back as long as
they have no more digits than an integer may be written with.
-/

namespace SpeechTransducer.Number

theorem toNat_of_isDigit {c : Char} (h : c.isDigit = true) : 48 ≤ c.toNat ∧ c.toNat ≤ 57 :=
  Char.isDigit_iff_toNat.mp h

theorem digitValue?_of_isDigit {c : Char} (h : c.isDigit = true) :
    Text.digitValue? c = some (c.toNat - 48) := by
  obtain ⟨hzero, hnine⟩ := toNat_of_isDigit h
  have hblocks : Text.digitBlocks = 0x30 :: Text.digitBlocks.tail := rfl
  have hfirst : (decide (0x30 ≤ c.toNat) && decide (c.toNat < 0x30 + 10)) = true := by
    rw [Bool.and_eq_true, decide_eq_true_eq, decide_eq_true_eq]
    omega
  rw [Text.digitValue?, hblocks]
  rw [List.find?_cons_of_pos (a := 0x30) hfirst]
  rfl

theorem isBlank_of_isDigit {c : Char} (h : c.isDigit = true) : Text.isBlank c = false := by
  obtain ⟨hzero, hnine⟩ := toNat_of_isDigit h
  rw [Text.isBlank]
  simp only [Bool.or_eq_false_iff, Bool.and_eq_false_iff, decide_eq_false_iff_not,
    beq_eq_false_iff_ne]
  omega

theorem moreDigits_of_isDigit {ds : List Char} (h : ∀ c ∈ ds, c.isDigit = true)
    (value count : Nat) :
    moreDigits value count ds = (Nat.ofDigitChars 10 ds value, count + ds.length, []) := by
  induction ds generalizing value count with
  | nil => rfl
  | cons c ds ih =>
      obtain ⟨hc, hds⟩ := List.forall_mem_cons.mp h
      rw [moreDigits.eq_def]
      simp only [digitValue?_of_isDigit hc, ih hds, Nat.ofDigitChars_cons, List.length_cons]
      rw [Nat.add_assoc, Nat.add_comm 1]
      rfl

theorem takeSign_of_isDigit {ds : List Char} (h : ∀ c ∈ ds, c.isDigit = true) :
    takeSign ds = (false, ds) := by
  cases ds with
  | nil => rfl
  | cons c ds =>
      have hc := h c List.mem_cons_self
      unfold takeSign
      split
      · rename_i heq
        cases heq
        contradiction
      · rename_i heq
        cases heq
        contradiction
      · rfl

/-- A word has no margins. -/
theorem unmargined_eq_toList {s : String} (h : Text.IsWord s.toList) : unmargined s = s.toList := by
  have hkeep {cs : List Char} (h : ∀ c ∈ cs, Text.isBlank c = false) :
      cs.dropWhile isMargin = cs := by
    cases cs with
    | nil => rfl
    | cons c cs => exact List.dropWhile_cons_of_neg (by simp [isMargin, h c])
  rw [unmargined, hkeep h.solid, hkeep (by simpa using h.solid), List.reverse_reverse]

/-- The digits of an integer. -/
def digitsOf (n : Int) : List Char := Nat.toDigits 10 n.natAbs

theorem isDigit_digitsOf {n : Int} {c : Char} (h : c ∈ digitsOf n) : c.isDigit = true :=
  Nat.isDigit_of_mem_toDigits (by decide) (by decide) h

theorem toList_toString (n : Int) :
    (toString n).toList = if n < 0 then '-' :: digitsOf n else digitsOf n := by
  rw [Int.toString_eq_repr, Int.repr_eq_if]
  obtain hn | hn := Int.lt_or_le n 0
  · have habs : (-n).toNat = n.natAbs := by omega
    rw [if_neg (by omega), if_pos hn, String.toList_append, Nat.toList_repr, habs]
    rfl
  · have habs : n.toNat = n.natAbs := by omega
    rw [if_pos hn, if_neg (by omega), Nat.toList_repr, habs]
    rfl

theorem isWord_toString (n : Int) : Text.IsWord (toString n).toList := by
  have hminus : Text.isBlank '-' = false := by decide
  have hdigits : ∀ c ∈ digitsOf n, Text.isBlank c = false := fun c hc =>
    isBlank_of_isDigit (isDigit_digitsOf hc)
  rw [toList_toString]
  split
  · exact ⟨by simp, List.forall_mem_cons.mpr ⟨hminus, hdigits⟩⟩
  · exact ⟨Nat.toDigits_ne_nil, hdigits⟩

theorem takeSign_toString (n : Int) :
    takeSign (unmargined (toString n)) = (decide (n < 0), digitsOf n) := by
  rw [unmargined_eq_toList (isWord_toString n), toList_toString]
  split
  · rename_i hn
    rw [decide_eq_true hn, takeSign]
  · rename_i hn
    rw [takeSign_of_isDigit fun c => isDigit_digitsOf, decide_eq_false hn]

theorem moreDigits_digitsOf (n : Int) :
    moreDigits 0 0 (digitsOf n) = (n.natAbs, (digitsOf n).length, []) := by
  rw [moreDigits_of_isDigit fun c => isDigit_digitsOf, Nat.zero_add, digitsOf,
    Nat.ofDigitChars_ten_toDigits]

/-- A written integer is read back, unless it has too many digits. -/
theorem readInteger_toString (n : Int) :
    readInteger (toString n) =
      if maxDigits < (digitsOf n).length then .error (.integerTooLong (digitsOf n).length)
      else .ok n := by
  have hpos : (digitsOf n).length ≠ 0 := Nat.ne_of_gt Nat.length_toDigits_pos
  have hvalue : (if n < 0 then -(n.natAbs : Int) else n.natAbs) = n := by
    split <;> omega
  rw [readInteger, takeSign_toString]
  dsimp only
  rw [moreDigits_digitsOf]
  simp only [hpos, startsLow, decide_eq_true_eq, hvalue, List.isEmpty_nil, if_true, decide_false,
    Bool.false_or]
  rfl

theorem length_digitsOf_le_iff {n : Int} {k : Nat} (hk : 0 < k) :
    (digitsOf n).length ≤ k ↔ n.natAbs < 10 ^ k :=
  Nat.length_toDigits_le_iff (by decide) hk

end SpeechTransducer.Number
