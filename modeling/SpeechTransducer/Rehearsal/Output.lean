import SpeechTransducer.Slice
import SpeechTransducer.Tensor

/-!
Encoder outputs by description: a few entries of every row, the rest of it at a floor. What is no
such output at all can be described too, so that its refusal can be rehearsed.
-/

namespace SpeechTransducer.Rehearsal

/-- A description of an encoder output. -/
inductive Output where
  /-- Rows with some entries above a floor, by their tokens. -/
  | sparse (floor : Float) (rows : List (List (Int × Float)))
  | dense (rows : List (List Float))
  /-- Zeros of a shape. -/
  | zeros (shape : List Nat)
  /-- No array. -/
  | list

/-- The place of a token in a row. Negative tokens count from the end of the row; what is beyond it
has no place in it. -/
def place (vocabulary : Nat) (token : Int) : Nat :=
  ((resolveEntry vocabulary token).toOption).getD vocabulary

/-- A row at a floor with some entries of its own. -/
def sparseRow (vocabulary : Nat) (floor : Float) (entries : List (Int × Float)) : List Float :=
  let set (row : Array Float) (e : Int × Float) := row.modify (place vocabulary e.1) fun _ => e.2
  (entries.foldl set (Array.replicate vocabulary floor)).toList

/-- A batch of one with some rows. -/
def batch (rows : List (List Float)) (width : Nat) : Argument Float :=
  .array { shape := [1, rows.length, width], data := (rows.flatMap id).toArray }

/-- The output that is described. -/
def Output.argument (vocabulary : Nat) : Output → Argument Float
  | sparse floor rows => batch (rows.map (sparseRow vocabulary floor)) vocabulary
  | dense rows => batch rows ((rows.head?.map List.length).getD vocabulary)
  | zeros shape => .array (.filled .float32 shape 0)
  | list => .list

end SpeechTransducer.Rehearsal
