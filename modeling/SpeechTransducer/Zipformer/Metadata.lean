import SpeechTransducer.Number.Literal
import SpeechTransducer.Zipformer.Session

/-!
What a model file says about its architecture: a few numbers and lists of numbers, one for each
stack of encoder layers, all written as text.
-/

namespace SpeechTransducer.Zipformer

/-- The two generations of encoders, which lay out their states differently. -/
inductive Layout where
  | first (attentionDims : List Int)
  | second (heads queryHeadDims valueHeadDims : List Int)
  deriving DecidableEq, Repr

/-- The architecture of a model. -/
structure Metadata where
  /-- The width of each stack. -/
  encoderDims : List Int
  /-- The number of layers in each stack. -/
  layers : List Int
  /-- The width of the convolutions in each stack. -/
  kernels : List Int
  /-- How far each stack looks back. -/
  leftContexts : List Int
  /-- How many frames the encoder reads in one call. -/
  segment : Int
  /-- How many frames further on the next call reads. -/
  offset : Int
  layout : Layout
  /-- How many tokens the prediction network looks back. -/
  contextSize : Int
  vocabulary : Int
  deriving DecidableEq, Repr

/-- The name of an encoder's generation. -/
def Layout.name : Layout → String
  | first _ => "zipformer"
  | second .. => "zipformer2"

/-- The text under a key. -/
def entry (texts : List (String × String)) (key : String) : Except Fault String :=
  match texts.lookup key with
  | some s => .ok s
  | none => .error (.missingMetadata key)

/-- The number under a key. -/
def integer (texts : List (String × String)) (key : String) : Except Fault Int := do
  Number.readInteger (← entry texts key)

/-- The numbers under a key, which commas separate. -/
def integers (texts : List (String × String)) (key : String) : Except Fault (List Int) := do
  ((← entry texts key).splitOn ",").mapM Number.readInteger

/-- The name of the encoder's generation; the first one when nothing is said. -/
def modelType (texts : List (String × String)) : Except Fault String :=
  let name := (texts.lookup "model_type").getD "zipformer"
  if name == "zipformer" || name == "zipformer2" then .ok name else .error (.unknownModelType name)

/-- Reads the architecture from what the encoder's and the prediction network's files say. -/
def Metadata.read (encoder decoder : List (String × String)) : Except Fault Metadata := do
  let type ← modelType encoder
  let encoderDims ← integers encoder "encoder_dims"
  let layers ← integers encoder "num_encoder_layers"
  let kernels ← integers encoder "cnn_module_kernels"
  let leftContexts ← integers encoder "left_context_len"
  let segment ← integer encoder "T"
  let offset ← integer encoder "decode_chunk_len"
  let layout ←
    if type == "zipformer" then do
      pure (Layout.first (← integers encoder "attention_dims"))
    else do
      let heads ← integers encoder "num_heads"
      let queryHeadDims ← integers encoder "query_head_dims"
      let valueHeadDims ← integers encoder "value_head_dims"
      pure (Layout.second heads queryHeadDims valueHeadDims)
  let contextSize ← integer decoder "context_size"
  let vocabulary ← integer decoder "vocab_size"
  return {
    encoderDims, layers, kernels, leftContexts, segment, offset, layout, contextSize, vocabulary }

end SpeechTransducer.Zipformer
