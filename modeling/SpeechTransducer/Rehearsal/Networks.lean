import SpeechTransducer.Rehearsal.Model
import SpeechTransducer.Zipformer.Session

/-!
Rehearsed networks in the place of open network files: an encoder that plays back its outputs, a
prediction network by table, and a joiner that adds. They note the last request.
-/

namespace SpeechTransducer.Rehearsal

/-- What rehearsed network files remember: how often the encoder was called, and the last call. -/
structure Notes where
  encodings : Nat := 0
  last : Option (Zipformer.Request Float) := none

/-- What is done in the place of a network. -/
inductive Role where
  | encoder (outputs : List (Argument Float)) (vocabulary : Nat)
  | predictor (table : Table)
  | joiner

/-- The arrays in a feed. -/
def fedArrays (request : Zipformer.Request Float) : List (Tensor Float) :=
  request.feed.filterMap fun (_, x) =>
    match x with
    | .array t => some t
    | .tokens _ => none

/-- The rows of token numbers that are fed first. -/
def fedTokens (request : Zipformer.Request Float) : List (List Int) :=
  match request.feed.head? with
  | some (_, .tokens rows) => rows
  | _ => []

/-- Answers a request. -/
def Role.answer (role : Role) (request : Zipformer.Request Float) :
    EStateM Fault Notes (Argument Float × List (Tensor Float)) := fun notes =>
  let notes := { notes with last := some request }
  match role with
  | encoder outputs vocabulary =>
    .ok (outputAt outputs vocabulary notes.encodings, advance ((fedArrays request).drop 1))
      { notes with encodings := notes.encodings + 1 }
  | predictor table =>
    .ok (.array (.ofRows .float32 ((fedTokens request).map table.row)), []) notes
  | joiner =>
    match fedArrays request with
    | first :: second :: _ =>
      match first.addSingle second with
      | .ok sum => .ok (.array sum, []) notes
      | .error f => .error f notes
    | _ => .error .outOfRange notes

/-- A rehearsed network file. -/
def session (role : Role) (metadata : List (String × String))
    (inputs : List Zipformer.DeclaredInput) (outputs : List String) :
    Zipformer.Session Notes Float where
  metadata := metadata
  inputs := inputs
  outputs := outputs
  run := role.answer

end SpeechTransducer.Rehearsal
