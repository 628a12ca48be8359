import SpeechTransducer.Endpoint
import SpeechTransducer.Model
import SpeechTransducer.Search.Method
import SpeechTransducer.Stream
import SpeechTransducer.Symbols

/-!
Recognizers: a model with a search method, symbols, endpoint rules and hotwords. A recognizer
drives any number of streams. It is a value that does not change; what changes are the stream and
the state of the networks, and both are passed along.
-/

namespace SpeechTransducer

/-- Everything that a stream is decoded with. -/
structure Recognizer (σ S : Type) where
  model : Model σ S
  symbols : SymbolTable
  frontEnd : Audio.FrontEnd S
  method : Search.Method
  graph : Option (Hotword.Graph S) := none
  /-- The endpoint rules, if endpoints are looked for. -/
  endpoints : Option (EndpointConfig S)
  /-- The seconds from one feature frame to the next. -/
  frameShift : S

/-- How many feature frames stand for one frame of the encoder's output. -/
def subsampling : Int := 4

/-- What has been recognized of an utterance. -/
structure Transcript (S : Type) where
  text : String
  symbols : List String
  /-- The start of every symbol, in seconds. -/
  timestamps : List S
  tokens : List Int
  isFinal : Bool
  deriving Repr

/-- A stream at work: the state of the networks and the stream's own. -/
structure Session (σ S : Type) where
  network : σ
  stream : Stream S

namespace Recognizer

variable {σ S : Type}

/-- Whether the encoder can read its next window: the window has to end before the last frame. -/
def isReady (r : Recognizer σ S) (st : Stream S) : Bool :=
  decide (st.processed + r.model.segment < st.ready)

section

variable [LT S] [DecidableLT S] [LE S] [DecidableLE S] [Countable S]

/-- Whether the current utterance of a stream is over. -/
def isEndpoint (r : Recognizer σ S) (st : Stream S) : Except Fault Bool :=
  match r.endpoints with
  | none => .ok false
  | some rules =>
    rules.isEndpoint st.processed (st.search.trailingBlanks * subsampling) r.frameShift

end

section

variable [Zero S] [Add S] [Sub S] [Neg S] [BEq S] [LT S] [DecidableLT S] [LogScale S]

/-- The state of a search that has decoded nothing, at the root of the hotword graph. -/
def freshSearch (r : Recognizer σ S) : Search.State S :=
  (r.method.start r.model.toNetwork).atRoot r.graph

/-- A stream without audio. -/
def newStream (r : Recognizer σ S) : Except Fault (Stream S) := do
  r.frontEnd.layout
  r.model.roomForContext
  return { search := r.freshSearch, encoderStates := ← r.model.initialStates }

/-- Starts a new utterance. The prediction rows stay, so that decoding goes on from the last
token; so do the encoder's states and the features. -/
def restart (r : Recognizer σ S) (st : Stream S) : Stream S :=
  st.restart { r.freshSearch with prediction := st.search.prediction }

/-- Decodes the next window. The frames count as passed once they have been read, whether or not
the networks answer; the encoder's new states are kept only if the search went through. -/
def decode (r : Recognizer σ S) : EStateM Fault (Session σ S) Unit := fun s =>
  let st := s.stream
  if !r.isReady st then
    .error (.streamNotReady st.processed st.ready r.model.segment) s
  else
    match st.frames r.frontEnd st.processed r.model.segment with
    | .error f => .error f s
    | .ok features =>
      let st := { st with processed := st.processed + r.model.offset }
      match r.model.encode features st.encoderStates s.network with
      | .error f network => .error f { network, stream := st }
      | .ok (out, states) network =>
        let search := { network, state := st.search }
        match r.method.decode r.model.toNetwork r.graph out search with
        | .error f s => .error f { network := s.network, stream := { st with search := s.state } }
        | .ok _ s =>
          .ok ()
            { network := s.network
              stream := { st with search := s.state, encoderStates := states } }

variable [LE S] [DecidableLE S] [Countable S] [HMul Int S S]

/-- What has been recognized of the current utterance, as it is. -/
def currentTranscript (r : Recognizer σ S) (st : Stream S) : Except Fault (Transcript S) := do
  let found := r.method.strip r.model.toNetwork st.search
  let symbols ← found.tokens.mapM r.symbols.text
  let shift := subsampling * r.frameShift
  return {
    text := String.join symbols
    symbols
    timestamps := found.timestamps.map (· * shift)
    tokens := found.tokens
    isFinal := st.isFinal }

/-- What has been recognized of the current utterance, which is closed if it is over. -/
def transcript (r : Recognizer σ S) : EStateM Fault (Stream S) (Transcript S) := fun st =>
  match r.isEndpoint st with
  | .error f => .error f st
  | .ok isOver =>
    let st := if isOver then st.finalize else st
    match r.currentTranscript st with
    | .error f => .error f st
    | .ok t => .ok t st

end

/-- A bound on the windows that a stream has left, if every window is further on than the one
before. There is one to spare: a model that goes back fails on its second window, which reaches
before the start of the stream. -/
def windowsLeft (r : Recognizer σ S) (st : Stream S) : Nat :=
  (st.ready - st.processed - r.model.segment).toNat + 1

end Recognizer

end SpeechTransducer
