import SpeechTransducer.Audio.Wave
import SpeechTransducer.Recognizer

/-!
A conversation over a socket. The peer sends 16-bit samples, cut into messages anywhere, and an
empty message when there is no more. It is told when the next message may come, the text so far
after every window, and the text and times of every finished utterance.
-/

namespace SpeechTransducer.Conversation

/-- What the peer is told. -/
inductive Event (S : Type) where
  | ready
  | interim (text : String)
  | final (text : String) (timestamps : List S)
  deriving Repr

/-- What is left of a conversation after a step: its events, and whether it went wrong. -/
structure Said (σ S : Type) where
  events : List (Event S) := []
  network : σ
  fault : Option Fault := none

variable {σ S : Type}
variable [Zero S] [Add S] [Sub S] [Neg S] [BEq S] [LT S] [DecidableLT S] [LE S] [DecidableLE S]
variable [LogScale S] [Countable S] [HMul Int S S]

/-- What the peer is told after a window. -/
def eventsOf (isEndpoint : Bool) (t : Transcript S) : List (Event S) :=
  if t.text == "" then []
  else if isEndpoint then [.final t.text t.timestamps]
  else [.interim t.text]

/-- Decodes what a stream holds, at most so many windows. The events are sent once all of it is
decoded, so a failure takes back those before it. -/
def decodeAvailable (r : Recognizer σ S) :
    Nat → List (Event S) → EStateM Fault (Session σ S) (List (Event S))
  | 0, events => pure events
  | windows + 1, events => fun s =>
    if !r.isReady s.stream then .ok events s
    else
      match r.decode s with
      | .error f s => .error f s
      | .ok _ s =>
        match r.isEndpoint s.stream with
        | .error f => .error f s
        | .ok isEndpoint =>
          match r.transcript s.stream with
          | .error f stream => .error f { s with stream }
          | .ok t stream =>
            let stream := if isEndpoint then r.restart stream else stream
            decodeAvailable r windows (events ++ eventsOf isEndpoint t) { s with stream }

/-- Decodes all windows that a stream holds. -/
def decodeAll (r : Recognizer σ S) (s : Session σ S) :
    EStateM.Result Fault (Session σ S) (List (Event S)) :=
  decodeAvailable r (r.windowsLeft s.stream) [] s

/-- The bytes of a message that make whole samples, after those left over from the one before, and
the byte that is left over now. -/
def wholeSamples (pending message : List UInt8) : List Int × List UInt8 :=
  let bytes := pending ++ message
  (Audio.Wave.samples bytes, bytes.drop (bytes.length - bytes.length % 2))

/-- Feeds samples to a stream. -/
def feed (r : Recognizer σ S) (samples : List Int) (st : Stream S) :
    EStateM.Result Fault (Stream S) Unit :=
  let values := samples.map r.frontEnd.sample
  (st.accept r.frontEnd r.frontEnd.rate
    (.array { shape := [values.length], data := values.toArray })).2

/-- Adds events in front of what is said later. -/
def Said.after (events : List (Event S)) (said : Said σ S) : Said σ S :=
  { said with events := events ++ said.events }

/-- The end of a conversation: the input is closed, and the last utterance is told even if it has
no text. -/
def conclude (r : Recognizer σ S) (s : Session σ S) : Said σ S :=
  match s.stream.finish r.frontEnd with
  | .error f _ => { network := s.network, fault := some f }
  | .ok _ stream =>
    match decodeAll r { s with stream } with
    | .error f s => { network := s.network, fault := some f }
    | .ok events s =>
      match r.transcript s.stream with
      | .error f _ => { events, network := s.network, fault := some f }
      | .ok t _ => { events := events ++ [.final t.text t.timestamps], network := s.network }

/-- Goes through the messages of the peer, who leaves when there are no more. -/
def listen (r : Recognizer σ S) (pending : List UInt8) (s : Session σ S) :
    List (List UInt8) → Said σ S
  | [] => { events := [.ready], network := s.network }
  | [] :: _ => (conclude r s).after [.ready]
  | message :: messages =>
    let (samples, pending) := wholeSamples pending message
    match feed r samples s.stream with
    | .error f _ => { events := [.ready], network := s.network, fault := some f }
    | .ok _ stream =>
      match decodeAll r { s with stream } with
      | .error f s => { events := [.ready], network := s.network, fault := some f }
      | .ok events s => (listen r pending s messages).after (.ready :: events)

/-- A whole conversation on a new stream. -/
def converse (r : Recognizer σ S) (network : σ) (messages : List (List UInt8)) : Said σ S :=
  match r.newStream with
  | .error f => { network, fault := some f }
  | .ok stream => listen r [] { network, stream } messages

end SpeechTransducer.Conversation
