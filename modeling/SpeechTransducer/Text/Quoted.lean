import SpeechTransducer.Text.Hex
import SpeechTransducer.Text.Printable

/-!
Texts in quotes. The quote is the single one, unless the text holds a single quote and no double
one. The quote and the backslash are escaped by a backslash, and characters that are not shown are
written by their number.
-/

namespace SpeechTransducer.Text

/-- One character as it stands between quotes of the given kind. -/
def escapeChar (quote c : Char) : String :=
  if c == quote || c == '\\' then String.ofList ['\\', c]
  else if c == '\n' then "\\n"
  else if c == '\r' then "\\r"
  else if c == '\t' then "\\t"
  else if isPrintable c then String.singleton c
  else if c.toNat ≤ 0xff then "\\x" ++ hexText 2 c.toNat
  else if c.toNat ≤ 0xffff then "\\u" ++ hexText 4 c.toNat
  else "\\U" ++ hexText 8 c.toNat

/-- The text in quotes. -/
def quoted (s : String) : String :=
  let cs := s.toList
  let quote := if cs.contains '\'' && !cs.contains '"' then '"' else '\''
  String.singleton quote ++ String.join (cs.map (escapeChar quote)) ++ String.singleton quote

/-- Texts in quotes, in brackets. -/
def quotedList (xs : List String) : String :=
  "[" ++ ", ".intercalate (xs.map quoted) ++ "]"

end SpeechTransducer.Text
