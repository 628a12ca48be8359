import SpeechTransducer.Slice
import SpeechTransducer.Tensor

/-!
What a search asks of a model: the prediction network, which looks at the last tokens of a path,
and the joiner, which combines its output with a frame of the encoder. The networks may keep a
state of their own; a call answers or fails, and leaves a state either way.
-/

namespace SpeechTransducer.Search

/-- The token that stands for no emission. -/
def blankToken : Int := 0

/-- The token for what the model has no symbol for. -/
def unknownToken : Int := 2

/-- Whether a token extends a path. -/
def isEmission (token : Int) : Bool := token != blankToken && token != unknownToken

/-- The networks behind a search, over a state `σ` of their own and scores `S`. -/
structure Network (σ S : Type) where
  /-- How many tokens the prediction network looks back. -/
  contextSize : Int
  /-- Whether the prediction network takes several rows in one call. -/
  batched : Bool := true
  /-- One output row for each row of token numbers. -/
  predict : List (List Int) → EStateM Fault σ (List (List S))
  /-- One row of logits for each prediction row, all for the same frame. -/
  join : List S → List (List S) → EStateM Fault σ (List (List S))

variable {σ S : Type}

/-- A value or a failure, as a call that leaves the state alone. -/
def answered {ε τ α : Type} : Except ε α → EStateM ε τ α
  | .ok a => pure a
  | .error e => throw e

/-- The number of entries that no list can have. -/
def longestList : Nat := 1 <<< 37

/-- Whether there is room for the blanks of the initial context. -/
def Network.roomForContext (net : Network σ S) : Except Fault Unit :=
  if !Number.fitsWord net.contextSize then .error .countTooLarge
  else if longestList ≤ net.contextSize then .error .listTooLong
  else .ok ()

/-- The last tokens of a path, as the prediction network sees them. -/
def Network.context (net : Network σ S) (tokens : List Int) : List Int :=
  sliceFrom (-net.contextSize) tokens

/-- Lists of token numbers as the rows of one array of 64-bit integers. -/
def tokenRows (rows : List (List Int)) : Except Fault (List (List Int)) := do
  Tensor.even rows
  if rows.any fun r => r.any (!Number.fitsWord ·) then throw .tokenTooLarge
  return rows

/-- The contexts of several paths as the rows of one array. -/
def Network.contexts (net : Network σ S) (paths : List (List Int)) :
    Except Fault (List (List Int)) :=
  tokenRows (paths.map net.context)

/-- Runs the prediction network on several rows, one call for all or one for each. -/
def Network.predictRows (net : Network σ S) (rows : List (List Int)) :
    EStateM Fault σ (List (List S)) :=
  if net.batched then net.predict rows else oneByOne rows
where
  oneByOne : List (List Int) → EStateM Fault σ (List (List S))
    | [] => pure []
    | row :: rest => do
      let out ← net.predict [row]
      return out ++ (← oneByOne rest)

/-- The frames of an encoder output of shape (1, T, C). -/
def encoderFrames (out : Argument S) : Except Fault (List (List S)) :=
  match out with
  | .list => .error (.notAnArray .encoderOut)
  | .array t =>
    match t.shape with
    | [1, count, width] => .ok (Tensor.cut t.data count width)
    | shape => .error (.encoderShape shape)

end SpeechTransducer.Search
