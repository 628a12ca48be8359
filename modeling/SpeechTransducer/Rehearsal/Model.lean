import SpeechTransducer.Model
import SpeechTransducer.Rehearsal.Table
import SpeechTransducer.Tensor.Precision

/-!
A whole model by tables: the encoder plays back a list of outputs, one in each call, and counts its
calls in its states.
-/

namespace SpeechTransducer.Rehearsal

/-- What rehearsed networks remember of their calls. -/
structure State where
  /-- How often the encoder was called. -/
  encodings : Nat := 0
  /-- How often the prediction network was called. -/
  predictions : Nat := 0
  /-- The features of the last encoder call. -/
  features : Option (Tensor Float) := none

/-- A model by tables. -/
structure Script where
  table : Table := {}
  contextSize : Int := 2
  batched : Bool := true
  bins : Option Int := none
  segment : Int := 8
  offset : Int := 4
  outputs : List (Argument Float) := []

/-- The output of an encoder that has played all its outputs: a single frame that is blank. -/
def idleOutput (vocabulary : Nat) : Argument Float :=
  let row := (List.range vocabulary).map fun v => if v == 0 then (5 : Float) else -10
  .array { shape := [1, 1, vocabulary], data := row.toArray }

/-- The output of an encoder call, given how many calls there were before. -/
def outputAt (outputs : List (Argument Float)) (vocabulary calls : Nat) : Argument Float :=
  (outputs[calls]?).getD (idleOutput vocabulary)

/-- The states of an encoder after a call. -/
def advance (states : List (Tensor Float)) : List (Tensor Float) :=
  states.map (·.addScalar 1)

/-- The networks of a script. -/
def Script.model (script : Script) : Model State Float where
  contextSize := script.contextSize
  batched := script.batched
  predict rows := fun s =>
    .ok (rows.map script.table.row) { s with predictions := s.predictions + 1 }
  join frame rows := Search.answered (addRows [frame] rows)
  bins := script.bins
  segment := script.segment
  offset := script.offset
  initialStates := .ok [.filled .int64 [1] 0]
  encode features states := fun s =>
    .ok (outputAt script.outputs script.table.vocabulary s.encodings, advance states)
      { s with encodings := s.encodings + 1, features := some features }

end SpeechTransducer.Rehearsal
