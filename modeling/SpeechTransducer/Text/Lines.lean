/-!
Lines of a text. A text file's line ends are first made uniform; the lines are then cut at every
character that ends a line, and a last line without an end counts as a line.
-/

namespace SpeechTransducer.Text

/-- Whether a character ends a line: line feed, carriage return, the vertical separators, the
three record separators, the next-line control and the two Unicode separators. -/
def endsLine (c : Char) : Bool :=
  let n := c.toNat
  (0xa ≤ n && n ≤ 0xd) || (0x1c ≤ n && n ≤ 0x1e) || n == 0x85 || n == 0x2028 || n == 0x2029

/-- Every carriage return, alone or before a line feed, becomes one line feed. -/
def uniformLineEnds : List Char → List Char
  | '\r' :: '\n' :: cs => '\n' :: uniformLineEnds cs
  | '\r' :: cs => '\n' :: uniformLineEnds cs
  | c :: cs => c :: uniformLineEnds cs
  | [] => []

/-- The lines of a text without their ends. A carriage return before a line feed makes one end
with it. -/
def linesOf : List Char → List (List Char)
  | [] => []
  | '\r' :: '\n' :: cs => [] :: linesOf cs
  | c :: cs =>
    if endsLine c then [] :: linesOf cs
    else
      match linesOf cs with
      | [] => [[c]]
      | l :: ls => (c :: l) :: ls

/-- The lines of a text. -/
def lines (s : String) : List String := (linesOf s.toList).map String.ofList

end SpeechTransducer.Text
