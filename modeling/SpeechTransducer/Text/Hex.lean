/-!
Numbers and bytes in base sixteen.
-/

namespace SpeechTransducer.Text

/-- A number in base sixteen, with zeros in front up to the given width. -/
def hexText (width n : Nat) : String :=
  let digits := Nat.toDigits 16 n
  String.ofList (List.replicate (width - digits.length) '0' ++ digits)

/-- The value of a digit in base sixteen, of either case. -/
def hexValue (c : Char) : Nat :=
  if c.isDigit then c.toNat - '0'.toNat else c.toLower.toNat - 'a'.toNat + 10

/-- The bytes of a text that has two digits for each. -/
def hexBytes (s : String) : List UInt8 := go s.toList
where
  go : List Char → List UInt8
    | high :: low :: rest => (16 * hexValue high + hexValue low).toUInt8 :: go rest
    | _ => []

end SpeechTransducer.Text
