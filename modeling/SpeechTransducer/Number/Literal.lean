import SpeechTransducer.Fault
import SpeechTransducer.Number.Binary
import SpeechTransducer.Text.Blank
import SpeechTransducer.Text.Digit

/-!
Written numbers. Blanks around a number are ignored, decimal digits of every script count, and a
single low line may stand between two digits.
-/

namespace SpeechTransducer.Number

/-- Blanks that may surround a number: all but the four separator controls. -/
def isMargin (c : Char) : Bool :=
  Text.isBlank c && !(0x1c ≤ c.toNat && c.toNat ≤ 0x1f)

/-- The text of a number without its margins. -/
def unmargined (s : String) : List Char :=
  ((s.toList.dropWhile isMargin).reverse.dropWhile isMargin).reverse

/-- A leading sign, and the rest; whether it is a minus. -/
def takeSign : List Char → Bool × List Char
  | '-' :: cs => (true, cs)
  | '+' :: cs => (false, cs)
  | cs => (false, cs)

/-- Digits at the head of the text, read on from the value and count of those before. A low line
is passed over if a digit stands on both sides. -/
def moreDigits (value count : Nat) : List Char → Nat × Nat × List Char
  | [] => (value, count, [])
  | c :: cs =>
    match Text.digitValue? c with
    | some d => moreDigits (10 * value + d) (count + 1) cs
    | none =>
      if c == '_' && count != 0 then
        match cs with
        | [] => (value, count, c :: cs)
        | e :: es =>
          match Text.digitValue? e with
          | some d => moreDigits (10 * value + d) (count + 1) es
          | none => (value, count, c :: cs)
      else (value, count, c :: cs)

/-- The most digits an integer may be written with. -/
def maxDigits : Nat := 4300

/-- Whether a text goes on with a low line, which no digit follows where the digits before it have
ended. -/
def startsLow : List Char → Bool
  | c :: _ => c == '_'
  | [] => false

/-- Reads an integer: a sign or none, then digits. Of two faults a misplaced low line comes first,
then too many digits, and then what stands behind the digits. -/
def readInteger (s : String) : Except Fault Int :=
  let (negative, cs) := takeSign (unmargined s)
  let (value, count, rest) := moreDigits 0 0 cs
  if count = 0 || startsLow rest then .error (.badInteger s)
  else if maxDigits < count then .error (.integerTooLong count)
  else if rest.isEmpty then .ok (if negative then -value else value)
  else .error (.badInteger s)

/-- A written number: not a number, infinite, or digits times a power of ten. -/
inductive Literal where
  | undefined
  | infinite (negative : Bool)
  | decimal (negative : Bool) (digits : Nat) (count : Nat) (exponent : Int)
  deriving DecidableEq, Repr

/-- The power of ten after a number: nothing, or the letter E, a sign or none, and digits. -/
def readExponent : List Char → Option Int
  | [] => some 0
  | c :: cs =>
    if c == 'e' || c == 'E' then
      let (negative, ds) := takeSign cs
      match moreDigits 0 0 ds with
      | (_, 0, _) => none
      | (value, _, []) => some (if negative then -value else value)
      | _ => none
    else none

/-- Reads the digits of a number, with a point or without, and its power of ten. -/
def readDecimal (negative : Bool) (cs : List Char) : Option Literal :=
  let (whole, count, rest) := moreDigits 0 0 cs
  let (digits, places, rest) :=
    match rest with
    | '.' :: ds =>
      let (part, places, rest) := moreDigits 0 0 ds
      (whole * Nat.pow 10 places + part, places, rest)
    | _ => (whole, 0, rest)
  if count + places == 0 then none
  else (readExponent rest).map fun e => .decimal negative digits (count + places) (e - places)

/-- Reads a number: a sign or none, then a name for infinity or for no number in any case, or
digits. -/
def readLiteral (s : String) : Option Literal :=
  let (negative, cs) := takeSign (unmargined s)
  let name := String.ofList (cs.map Char.toLower)
  if name == "inf" || name == "infinity" then some (.infinite negative)
  else if name == "nan" then some .undefined
  else readDecimal negative cs

/-- The double-precision number nearest to a written one. Powers of ten far outside the range of
doubles are not computed. -/
def Literal.toFloat : Literal → Float
  | undefined => 0 / 0
  | infinite negative => if negative then -1 / 0 else 1 / 0
  | decimal negative digits count exponent =>
    if digits == 0 || exponent + count < -400 then ofFraction negative 0 1
    else if exponent > 400 then Float.ofBits (packBits negative (1 <<< 53) 1000).toUInt64
    else if 0 ≤ exponent then ofFraction negative (digits * Nat.pow 10 exponent.toNat) 1
    else ofFraction negative digits (Nat.pow 10 (-exponent).toNat)

/-- Reads a double-precision number. -/
def readFloat (s : String) : Option Float := (readLiteral s).map Literal.toFloat

end SpeechTransducer.Number
