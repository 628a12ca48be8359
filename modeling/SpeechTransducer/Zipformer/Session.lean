import SpeechTransducer.Tensor

/-!
Network files that have been opened: what they declare about themselves, and how they are run.
-/

namespace SpeechTransducer.Zipformer

/-- A declared input of a network. -/
structure DeclaredInput where
  name : String
  /-- The name of the input's type, as the file spells it. -/
  type : String
  /-- The declared shape; a dimension without a number is free. -/
  shape : Option (List (Option Int)) := none
  deriving DecidableEq, Repr

/-- What is fed to an input. -/
inductive Input (S : Type) where
  | array (t : Tensor S)
  /-- Rows of token numbers, as 64-bit integers. -/
  | tokens (rows : List (List Int))

/-- One call of a network. -/
structure Request (S : Type) where
  /-- The inputs by name. -/
  feed : List (String × Input S)
  /-- The outputs asked for by name, or all. -/
  outputs : Option (List String) := none

/-- An open network file. A call answers with the first output and the others. -/
structure Session (σ S : Type) where
  metadata : List (String × String) := []
  inputs : List DeclaredInput := []
  outputs : List String := []
  run : Request S → EStateM Fault σ (Argument S × List (Tensor S))

/-- The kinds of numbers by the names of types in network files. Other types count as single
precision. -/
def elementType (name : String) : ElementType :=
  if name == "tensor(float16)" then .float16
  else if name == "tensor(int64)" then .int64
  else if name == "tensor(int32)" then .int32
  else .float32

variable {S : Type}

/-- Feeds an input. A name that was fed before keeps its place. -/
def feedTo (name : String) (x : Input S) : List (String × Input S) → List (String × Input S)
  | [] => [(name, x)]
  | e :: rest => if e.1 == name then (name, x) :: rest else e :: feedTo name x rest

/-- The rows that a network answered. -/
def answerRows : Argument S → Except Fault (List (List S))
  | .list => .error (.answerShape [])
  | .array t =>
    match t.rows? with
    | some rows => .ok rows
    | none => .error (.answerShape t.shape)

end SpeechTransducer.Zipformer
