import SpeechTransducer.Fault
import SpeechTransducer.Number.Word

/-!
Arrays of numbers with a shape, as they pass between a recognizer and its networks.
-/

namespace SpeechTransducer

/-- An array: its entries in row order, the last dimension running fastest. -/
structure Tensor (S : Type) where
  kind : ElementType := .float32
  shape : List Nat
  data : Array S
  deriving Repr

namespace Tensor

variable {S : Type}

/-- The number of entries of a shape. -/
def volume (shape : List Nat) : Nat := shape.foldl (· * ·) 1

/-- The array of a shape with one value throughout. -/
def filled (kind : ElementType) (shape : List Nat) (x : S) : Tensor S :=
  { kind, shape, data := Array.replicate (volume shape) x }

/-- The number of bytes that an array takes if no dimension is zero, counted dimension by dimension
in a machine word. -/
def bytesOf (kind : ElementType) (shape : List Int) : Except Fault Nat :=
  shape.foldlM more kind.bytes
where
  more (bytes : Nat) (n : Int) : Except Fault Nat :=
    if n = 0 then .ok bytes
    else if n < 0 then .error .negativeDimension
    else if Number.fitsWord (bytes * n) then .ok (bytes * n.toNat)
    else .error .arrayTooLarge

/-- The number of bytes that no array can take. -/
def memory : Nat := 1 <<< 40

/-- Zeros of a shape. -/
def zeros [Zero S] (kind : ElementType) (shape : List Int) : Except Fault (Tensor S) := do
  if !shape.all Number.fitsWord then throw .dimensionTooLarge
  let bytes ← bytesOf kind shape
  let shape := shape.map Int.toNat
  if memory ≤ bytes ∧ 0 < volume shape then throw (.noMemory bytes shape kind)
  return filled kind shape 0

/-- Checks that rows have one length, as those of an array have. -/
def even {α : Type} (rows : List (List α)) : Except Fault Unit :=
  if rows.all fun r => r.length == (rows.head?.map List.length).getD 0 then .ok ()
  else .error (.raggedRows rows.length)

/-- The shape of rows of one length. Where there are no rows there is no length either, and only one
dimension is left. -/
def shapeOf {α : Type} : List (List α) → List Nat
  | [] => [0]
  | row :: rows => [rows.length + 1, row.length]

/-- Rows of one length as an array. -/
def ofRows (kind : ElementType) (rows : List (List S)) : Tensor S :=
  { kind, shape := shapeOf rows, data := (rows.flatMap id).toArray }

/-- The entries cut into rows. -/
def cut (data : Array S) (count width : Nat) : List (List S) :=
  (List.range count).map fun i => (data.extract (i * width) (i * width + width)).toList

/-- The rows of a two-dimensional array. -/
def rows? (t : Tensor S) : Option (List (List S)) :=
  match t.shape with
  | [0] => some []
  | [count, width] => some (cut t.data count width)
  | _ => none

/-- An array with every entry of its first dimension repeated. -/
def repeated (t : Tensor S) (count : Nat) : Tensor S :=
  match t.shape with
  | [] => t
  | n :: rest =>
    { t with
      shape := n * count :: rest
      data := ((cut t.data n (volume rest)).flatMap (List.replicate count) |>.flatMap id).toArray }

/-- The shape that two shapes stretch to, all of them with the last dimension first. A dimension of
one stretches to any other. -/
def stretch : List Nat → List Nat → Option (List Nat)
  | [], ns => some ns
  | ms, [] => some ms
  | m :: ms, n :: ns =>
    if m = n ∨ n = 1 then (stretch ms ns).map (m :: ·)
    else if m = 1 then (stretch ms ns).map (n :: ·)
    else none

/-- Where an entry of a stretched array comes from, given the two shapes with the last dimension
first. -/
def unstretched : List Nat → List Nat → Nat → Nat
  | m :: ms, n :: ns, place => (if m = 1 then 0 else place % n) + m * unstretched ms ns (place / n)
  | _, _, _ => 0

end Tensor

/-- What a caller hands over where an array is needed. -/
inductive Argument (S : Type) where
  | array (t : Tensor S)
  | list
  deriving Repr

/-- The array that was handed over. -/
def Argument.tensor {S : Type} (role : ArrayRole) : Argument S → Except Fault (Tensor S)
  | .array t => .ok t
  | .list => .error (.notAnArray role)

end SpeechTransducer
