/-!
Blank characters, and texts taken apart at them. Blank are the characters with the Unicode property
White_Space together with the four separators U+001C to U+001F; the zero-width characters are not
blank.
-/

namespace SpeechTransducer.Text

/-- Whether a character separates words. -/
def isBlank (c : Char) : Bool :=
  let n := c.toNat
  (0x9 ≤ n && n ≤ 0xd) || (0x1c ≤ n && n ≤ 0x20) || n == 0x85 || n == 0xa0 || n == 0x1680 ||
  (0x2000 ≤ n && n ≤ 0x200a) || n == 0x2028 || n == 0x2029 || n == 0x202f || n == 0x205f ||
  n == 0x3000

/-- The stretches of characters between blanks, none of them empty. -/
def wordsOf : List Char → List (List Char)
  | [] => []
  | c :: cs =>
    if isBlank c then wordsOf cs
    else
      match cs with
      | [] => [[c]]
      | d :: _ =>
        if isBlank d then [c] :: wordsOf cs
        else
          match wordsOf cs with
          | [] => [[c]]
          | w :: ws => (c :: w) :: ws

/-- The words of a text. -/
def words (s : String) : List String := (wordsOf s.toList).map String.ofList

/-- The characters without the blanks at both ends. -/
def trimChars (cs : List Char) : List Char :=
  ((cs.dropWhile isBlank).reverse.dropWhile isBlank).reverse

/-- A text without the blanks at both ends. -/
def trim (s : String) : String := String.ofList (trimChars s.toList)

end SpeechTransducer.Text
