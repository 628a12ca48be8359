import SpeechTransducer.Number.Half
import SpeechTransducer.Number.Pairwise
import SpeechTransducer.Tensor

/-!
Arithmetic on arrays in the precision of their numbers.
-/

namespace SpeechTransducer

/-- A number in the precision of a kind. -/
def ElementType.round (kind : ElementType) (x : Float) : Float :=
  match kind with
  | float16 => Number.half x
  | float32 => LogScale.single x
  | int32 | int64 => x

/-- A number turned into one of a kind. -/
def ElementType.convert (kind : ElementType) (x : Float) : Float :=
  match kind with
  | float16 | float32 => kind.round x
  | int32 => Number.ofInteger (Number.toWord 32 x)
  | int64 => Number.ofInteger (Number.toWord 64 x)

/-- An array with a number added to every entry. -/
def Tensor.addScalar (t : Tensor Float) (x : Float) : Tensor Float :=
  { t with data := t.data.map fun y => t.kind.round (y + x) }

/-- Two arrays added entry by entry in single precision, stretched to one shape. -/
def Tensor.addSingle (s t : Tensor Float) : Except Fault (Tensor Float) :=
  match Tensor.stretch s.shape.reverse t.shape.reverse with
  | none => .error (.shapesDiffer s.shape t.shape)
  | some shape =>
    let entry (u : Tensor Float) (place : Nat) : Float :=
      u.data.getD (Tensor.unstretched u.shape.reverse shape place) 0
    .ok
      { shape := shape.reverse
        data := (Array.range (Tensor.volume shape)).map fun place =>
          Number.addSingle (entry s place) (entry t place) }

/-- The sum of the entries of an array. Half precision is summed in single precision. -/
def Tensor.sum (t : Tensor Float) : Float :=
  match t.kind with
  | .float16 | .float32 => t.kind.round (Number.sumSingle t.data.toList)
  | .int32 | .int64 => t.data.foldl (· + ·) 0

end SpeechTransducer
