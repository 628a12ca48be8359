/-!
The kinds of numbers that arrays hold.
-/

namespace SpeechTransducer

/-- A kind of number. -/
inductive ElementType where
  | float16 | float32 | int32 | int64
  deriving DecidableEq, Repr

namespace ElementType

/-- The name of a kind. -/
def name : ElementType → String
  | float16 => "float16"
  | float32 => "float32"
  | int32 => "int32"
  | int64 => "int64"

/-- The number of bytes that a number takes. -/
def bytes : ElementType → Nat
  | float16 => 2
  | float32 => 4
  | int32 => 4
  | int64 => 8

end ElementType

end SpeechTransducer
