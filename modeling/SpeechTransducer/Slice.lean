import SpeechTransducer.Fault
import SpeechTransducer.Number.Word

/-!
Parts of lists between positions, and single entries. A negative position counts from the end.
Where a part is taken, positions beyond an end stand for that end.
-/

namespace SpeechTransducer

/-- The distance from the start that a position stands for. -/
def resolvePosition (length : Nat) (i : Int) : Nat :=
  if i < 0 then (i + length).toNat else min i.toNat length

/-- The part of a list from a position on. -/
def sliceFrom {α : Type} (i : Int) (xs : List α) : List α := xs.drop (resolvePosition xs.length i)

/-- The part of a list from one position up to another. -/
def slice {α : Type} (i j : Int) (xs : List α) : List α :=
  let first := resolvePosition xs.length i
  (xs.drop first).take (resolvePosition xs.length j - first)

section

variable {α : Type}

theorem resolvePosition_natCast (length i : Nat) : resolvePosition length i = min i length := by
  rw [resolvePosition, if_neg (by omega), Int.toNat_natCast]

theorem sliceFrom_natCast (i : Nat) (xs : List α) : sliceFrom i xs = xs.drop i := by
  rw [sliceFrom, resolvePosition_natCast, List.drop_eq_drop_iff]
  omega

theorem slice_natCast (i j : Nat) (xs : List α) : slice i j xs = (xs.drop i).take (j - i) := by
  have hdrop : xs.drop (min i xs.length) = xs.drop i := by
    rw [List.drop_eq_drop_iff]
    omega
  simp only [slice, resolvePosition_natCast]
  rw [hdrop, List.take_eq_take_iff, List.length_drop]
  omega

end

/-- The distance from the start of the entry at a position. -/
def resolveEntry (length : Nat) (i : Int) : Except Fault Nat :=
  if !Number.fitsWord i then .error .indexTooLarge
  else
    let i := if i < 0 then i + length else i
    if 0 ≤ i ∧ i < length then .ok i.toNat else .error .outOfRange

end SpeechTransducer
