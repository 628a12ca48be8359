import SpeechTransducer.Model
import SpeechTransducer.Zipformer.States

/-!
A model made of three network files: an encoder, a prediction network and a joiner.
-/

namespace SpeechTransducer.Zipformer

/-- The three networks, with what the files say about them. -/
structure Transducer (σ S : Type) where
  metadata : Metadata
  /-- The number of features in a frame. -/
  bins : Int
  encoder : Session σ S
  predictor : Session σ S
  joiner : Session σ S

/-- The number of features that the encoder declares, if its last dimension has a number. -/
def declaredWidth (p : DeclaredInput) : Option Int := (p.shape.bind List.getLast?).bind id

variable {σ S : Type}

/-- Puts three networks together for frames with `bins` features. -/
def Transducer.ofSessions (encoder predictor joiner : Session σ S) (bins : Int) :
    Except Fault (Transducer σ S) := do
  let metadata ← Metadata.read encoder.metadata predictor.metadata
  match encoder.inputs.head?.map declaredWidth with
  | none => throw .outOfRange
  | some none => pure ()
  | some (some width) => if width ≠ bins then throw (.encoderWidth width bins)
  if predictor.inputs.isEmpty then throw .outOfRange
  return { metadata, bins, encoder, predictor, joiner }

namespace Transducer

/-- The kinds of numbers that the encoder's states have: those of its inputs after the first. -/
def stateTypes (t : Transducer σ S) : List ElementType :=
  (t.encoder.inputs.drop 1).map fun p => elementType p.type

/-- The encoder's states before its first call. -/
def initialStates [Zero S] (t : Transducer σ S) : Except Fault (List (Tensor S)) := do
  let states ← t.metadata.states t.bins
  if states.length ≠ t.stateTypes.length then
    throw (.stateCount t.stateTypes.length states.length)
  return List.zipWith (fun state kind => { state with kind }) states t.stateTypes

/-- What the encoder is fed: the features as a batch of one, then the states, by the names of its
inputs in their order. -/
def encoderFeed (t : Transducer σ S) (features : Tensor S) (states : List (Tensor S)) :
    List (String × Input S) :=
  let batch : Tensor S := { features with kind := .float32, shape := 1 :: features.shape }
  let names := t.encoder.inputs.map DeclaredInput.name
  (names.zip (batch :: states)).foldl (fun feed p => feedTo p.1 (.array p.2) feed) []

/-- Runs the encoder on a window of features and the states left by the call before; no states
stand for those before the first call. -/
def encode [Zero S] (t : Transducer σ S) (features : Argument S) (states : List (Tensor S)) :
    EStateM Fault σ (Argument S × List (Tensor S)) := do
  let features ← Search.answered (features.tensor .features)
  if features.shape.map Int.ofNat ≠ [t.metadata.segment, t.bins] then
    throw (.featuresShape t.metadata.segment t.bins features.shape)
  let states ← if states.isEmpty then Search.answered t.initialStates else pure states
  t.encoder.run { feed := t.encoderFeed features states, outputs := some t.encoder.outputs }

/-- Runs the prediction network on rows of token numbers. -/
def predict (t : Transducer σ S) (rows : List (List Int)) : EStateM Fault σ (List (List S)) := do
  match t.predictor.inputs with
  | [] => throw .outOfRange
  | first :: _ =>
    let (out, _) ← t.predictor.run { feed := [(first.name, .tokens rows)] }
    Search.answered (answerRows out)

/-- Joins frames of the encoder's output with prediction rows; every frame is repeated for each of
the rows. -/
def join (t : Transducer σ S) (frames rows : List (List S)) : EStateM Fault σ (List (List S)) := do
  match t.joiner.inputs with
  | first :: second :: _ =>
    let repeated := (Tensor.ofRows .float32 frames).repeated rows.length
    let feed := feedTo second.name (.array (.ofRows .float32 rows)) [(first.name, .array repeated)]
    let (out, _) ← t.joiner.run { feed }
    Search.answered (answerRows out)
  | _ => throw .outOfRange

/-- The three networks as the model of a recognizer. -/
def model [Zero S] (t : Transducer σ S) : Model σ S where
  contextSize := t.metadata.contextSize
  predict := t.predict
  join frame rows := t.join [frame] rows
  bins := some t.bins
  segment := t.metadata.segment
  offset := t.metadata.offset
  initialStates := t.initialStates
  encode features states := t.encode (.array features) states

end Transducer

end SpeechTransducer.Zipformer
