import SpeechTransducer.Zipformer.Metadata

/-!
The encoder's states before its first call: arrays of zeros in the order of the encoder's inputs.
Encoders of the first generation list seven kinds of states, each for all stacks. Those of the
second list six states for every layer, stack by stack, and then the state of the embedding and a
counter of frames.
-/

namespace SpeechTransducer.Zipformer

/-- The kind and the dimensions of a state. -/
structure Slot where
  kind : ElementType
  shape : List Int
  deriving DecidableEq, Repr

/-- The array of zeros for a slot. -/
def Slot.zeros {S : Type} [Zero S] (slot : Slot) : Except Fault (Tensor S) :=
  Tensor.zeros slot.kind slot.shape

/-- What a stack of the first generation is made of. -/
structure FirstStack where
  layers : Int
  attentionDim : Int
  leftContext : Int
  encoderDim : Int
  kernel : Int
  deriving DecidableEq, Repr

/-- The stacks of the first generation. Where the lists differ in length, the shortest counts. -/
def Metadata.firstStacks (m : Metadata) (attentionDims : List Int) : List FirstStack :=
  let rest := m.leftContexts.zip (m.encoderDims.zip m.kernels)
  (m.layers.zip (attentionDims.zip rest)).map
    fun (layers, attentionDim, leftContext, encoderDim, kernel) =>
      { layers, attentionDim, leftContext, encoderDim, kernel }

/-- The number of frames seen. -/
def FirstStack.length (s : FirstStack) : Slot := ⟨.int64, [s.layers, 1]⟩

/-- The running average. -/
def FirstStack.average (s : FirstStack) : Slot := ⟨.float32, [s.layers, 1, s.encoderDim]⟩

/-- The keys of the attention. -/
def FirstStack.key (s : FirstStack) : Slot :=
  ⟨.float32, [s.layers, s.leftContext, 1, s.attentionDim]⟩

/-- The values of the attention, at half its width. -/
def FirstStack.value (s : FirstStack) : Slot :=
  ⟨.float32, [s.layers, s.leftContext, 1, s.attentionDim / 2]⟩

/-- The frames that a convolution still needs. -/
def FirstStack.convolution (s : FirstStack) : Slot :=
  ⟨.float32, [s.layers, 1, s.encoderDim, s.kernel - 1]⟩

/-- The seven kinds of states of the first generation, in order. -/
def firstKinds : List (FirstStack → Slot) :=
  [ FirstStack.length, FirstStack.average, FirstStack.key, FirstStack.value, FirstStack.value,
    FirstStack.convolution, FirstStack.convolution ]

/-- The states of the first generation. They are made stack by stack and listed kind by kind. -/
def Metadata.firstStates {S : Type} [Zero S] (m : Metadata) (attentionDims : List Int) :
    Except Fault (List (Tensor S)) := do
  let made ← (m.firstStacks attentionDims).mapM fun stack =>
    firstKinds.mapM fun kind => (kind stack).zeros
  return (List.range firstKinds.length).flatMap fun k => made.filterMap (·[k]?)

/-- The number of a stack in a list that has to have one for it. -/
def ofStack (i : Nat) (numbers : List Int) : Except Fault Int :=
  match numbers[i]? with
  | some n => .ok n
  | none => .error .outOfRange

/-- What a stack of the second generation is made of. -/
structure SecondStack where
  keyDim : Int
  valueDim : Int
  encoderDim : Int
  kernel : Int
  leftContext : Int
  deriving DecidableEq, Repr

/-- A stack of the second generation by its number. -/
def Metadata.secondStack (m : Metadata) (heads queryHeadDims valueHeadDims : List Int) (i : Nat) :
    Except Fault SecondStack := do
  let heads ← ofStack i heads
  let query ← ofStack i queryHeadDims
  let value ← ofStack i valueHeadDims
  return {
    keyDim := query * heads
    valueDim := value * heads
    encoderDim := ← ofStack i m.encoderDims
    kernel := ← ofStack i m.kernels
    leftContext := ← ofStack i m.leftContexts }

/-- The six states of each layer of a stack, in order. -/
def SecondStack.layerSlots (s : SecondStack) : List Slot :=
  [ ⟨.float32, [s.leftContext, 1, s.keyDim]⟩,
    ⟨.float32, [1, 1, s.leftContext, 3 * s.encoderDim / 4]⟩,
    ⟨.float32, [s.leftContext, 1, s.valueDim]⟩,
    ⟨.float32, [s.leftContext, 1, s.valueDim]⟩,
    ⟨.float32, [1, s.encoderDim, s.kernel / 2]⟩,
    ⟨.float32, [1, s.encoderDim, s.kernel / 2]⟩ ]

/-- The states of all layers of a stack. -/
def SecondStack.states {S : Type} [Zero S] (s : SecondStack) (layers : Int) :
    Except Fault (List (Tensor S)) :=
  ((List.replicate layers.toNat s.layerSlots).flatMap id).mapM Slot.zeros

/-- The embedding's state and the counter, given the number of features in a frame. -/
def lastSlots (bins : Int) : List Slot :=
  [⟨.float32, [1, 128, 3, ((bins - 1) / 2 - 1) / 2]⟩, ⟨.int64, [1]⟩]

/-- The states of the second generation. -/
def Metadata.secondStates {S : Type} [Zero S] (m : Metadata)
    (heads queryHeadDims valueHeadDims : List Int) (bins : Int) :
    Except Fault (List (Tensor S)) := do
  let ofLayers ← m.layers.zipIdx.mapM fun (layers, i) => do
    let stack ← m.secondStack heads queryHeadDims valueHeadDims i
    stack.states layers
  return ofLayers.flatMap id ++ (← (lastSlots bins).mapM Slot.zeros)

/-- The states of an encoder before its first call, before they take the types of its inputs. -/
def Metadata.states {S : Type} [Zero S] (m : Metadata) (bins : Int) :
    Except Fault (List (Tensor S)) :=
  match m.layout with
  | .first attentionDims => m.firstStates attentionDims
  | .second heads queryHeadDims valueHeadDims =>
    m.secondStates heads queryHeadDims valueHeadDims bins

end SpeechTransducer.Zipformer
