import SpeechTransducer.Fault
import SpeechTransducer.Text.Lines

/-!
Text files: bytes in UTF-8, read strictly, with uniform line ends. A byte order mark stays a
character of the text.
-/

namespace SpeechTransducer.Text

/-- The text of a file. -/
def ofBytes (bytes : ByteArray) : Except Fault String :=
  match String.fromUTF8? bytes with
  | some s => .ok (String.ofList (uniformLineEnds s.toList))
  | none => .error .undecodable

end SpeechTransducer.Text
