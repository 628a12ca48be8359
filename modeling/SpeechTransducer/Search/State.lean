import SpeechTransducer.Hypothesis
import SpeechTransducer.Search.Network

/-!
The state that a search carries from one chunk of a stream to the next.
-/

namespace SpeechTransducer.Search

/-- What has been decoded of a stream so far. -/
structure State (S : Type) where
  /-- The tokens of the best path, with the blanks of the initial context in front. -/
  tokens : List Int := []
  /-- For every emission of the best path, the number of its frame. -/
  timestamps : List Int := []
  /-- How many frames have been decoded. -/
  frameOffset : Int := 0
  /-- How many frames in a row, up to the last one, have emitted nothing. -/
  trailingBlanks : Int := 0
  /-- The paths still followed, in a search that follows several. -/
  hyps : Option (Hypotheses S) := none
  /-- The prediction rows kept for the next chunk. -/
  prediction : Option (List (List S)) := none

/-- Notes a token emitted at a frame. -/
def State.emit {S : Type} (st : State S) (token frame : Int) : State S :=
  { st with
    tokens := st.tokens ++ [token]
    timestamps := st.timestamps ++ [frame]
    trailingBlanks := 0 }

/-- Notes a frame without emission. -/
def State.rest {S : Type} (st : State S) : State S :=
  { st with trailingBlanks := st.trailingBlanks + 1 }

/-- A search in progress: the networks' state and the stream's. -/
structure Session (σ S : Type) where
  network : σ
  state : State S

/-- Steps of a search. A step that fails leaves the session as far as it got. -/
abbrev Run (σ S : Type) := EStateM Fault (Session σ S)

variable {σ S α : Type}

/-- Asks the networks. -/
def ask (call : EStateM Fault σ α) : Run σ S α := fun s =>
  match call s.network with
  | .ok a network => .ok a { s with network }
  | .error e network => .error e { s with network }

/-- Looks at the stream's state. -/
def look (f : State S → α) : Run σ S α := fun s => .ok (f s.state) s

/-- Changes the stream's state. -/
def change (f : State S → State S) : Run σ S Unit := fun s => .ok () { s with state := f s.state }

end SpeechTransducer.Search
