import SpeechTransducer.Number.Fixed

/-!
Numbers of bytes as text, in binary units.
-/

namespace SpeechTransducer.Number

/-- The units, each of 1024 of the one before. -/
def byteUnits : List String := ["bytes", "KiB", "MiB", "GiB", "TiB", "PiB", "EiB"]

/-- A number of units as text, given as a fraction: three digits, or all digits before the point if
there are more. -/
def threeDigits (num den : Nat) : String :=
  let hundredths := roundDiv (100 * num) den
  let tenths := roundDiv (10 * num) den
  if hundredths < 1000 then placeText 2 hundredths
  else if tenths < 1000 then placeText 1 tenths
  else placeText 0 (roundDiv num den) ++ "."

/-- A number of bytes in the unit that leaves at least one and less than 1024 of it. -/
def byteText (bytes : Nat) : String :=
  let unit := bytes.log2 / 10
  let unit := if roundDiv bytes (1 <<< (10 * unit)) == 1024 then unit + 1 else unit
  let name := byteUnits.getD unit ""
  (if unit == 0 then toString bytes else threeDigits bytes (1 <<< (10 * unit))) ++ " " ++ name

end SpeechTransducer.Number
