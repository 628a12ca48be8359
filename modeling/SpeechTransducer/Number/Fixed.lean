import SpeechTransducer.Number.Binary

/-!
Numbers with a fixed count of decimal places. The exact binary value is rounded once; a half goes
to the even digit.
-/

namespace SpeechTransducer.Number

/-- A magnitude counted in units of the last place, written with a point. -/
def placeText (places units : Nat) : String :=
  let digits := Nat.toDigits 10 units
  let padded := List.replicate (places + 1 - digits.length) '0' ++ digits
  let whole := padded.length - places
  if places == 0 then String.ofList padded
  else String.ofList (padded.take whole ++ '.' :: padded.drop whole)

/-- A number with the given count of places. A negative zero and what rounds to it keep the
sign. -/
def fixed (places : Nat) (x : Float) : String :=
  match parts x with
  | .undefined => "nan"
  | .infinite negative => if negative then "-inf" else "inf"
  | .finite negative m e =>
    let num := m * Nat.pow 10 places
    let units := if 0 ≤ e then num <<< e.toNat else roundDiv num (1 <<< (-e).toNat)
    (if negative then "-" else "") ++ placeText places units

end SpeechTransducer.Number
