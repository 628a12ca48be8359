import SpeechTransducer.Audio.Extractor
import SpeechTransducer.Search.State

/-!
Streams: one speaker's audio on its way through a recognizer. The features of the whole stream are
kept; frames are counted from the start of the current utterance.
-/

namespace SpeechTransducer

/-- The state of one stream of audio. -/
structure Stream (S : Type) where
  extractor : Audio.Extractor S := {}
  search : Search.State S := {}
  /-- What the encoder carries from one call to the next. -/
  encoderStates : List (Tensor S) := []
  /-- How many frames of the current utterance have been passed. -/
  processed : Int := 0
  /-- The frame of the stream at which the current utterance starts. -/
  start : Int := 0
  /-- Whether the current utterance is closed. -/
  isFinal : Bool := false

namespace Stream

variable {S : Type}

/-- How many frames the current utterance has so far. -/
def ready (st : Stream S) : Int := st.extractor.ready - st.start

/-- Frames of the current utterance from a position on. -/
def frames [Zero S] (fe : Audio.FrontEnd S) (st : Stream S) (index n : Int) :
    Except Fault (Tensor S) :=
  st.extractor.get fe (st.start + index) n

/-- The stream after its extractor ran. -/
def withExtractor (st : Stream S) :
    EStateM.Result Fault (Audio.Extractor S) Unit → EStateM.Result Fault (Stream S) Unit
  | .ok _ x => .ok () { st with extractor := x }
  | .error f x => .error f { st with extractor := x }

/-- Takes audio at a rate. -/
def accept (fe : Audio.FrontEnd S) (rate : Int) (samples : Argument S) (st : Stream S) :
    List Warning × EStateM.Result Fault (Stream S) Unit :=
  let (warnings, result) := st.extractor.accept fe rate samples
  (warnings, st.withExtractor result)

/-- Closes the input. -/
def finish (fe : Audio.FrontEnd S) : EStateM Fault (Stream S) Unit := fun st =>
  st.withExtractor (Audio.Extractor.finish fe st.extractor)

/-- Closes the current utterance. -/
def finalize (st : Stream S) : Stream S := { st with isFinal := true }

/-- Starts an utterance at the current frame, with a search that has decoded nothing. -/
def restart (search : Search.State S) (st : Stream S) : Stream S :=
  { st with search, start := st.start + st.processed, processed := 0, isFinal := false }

end Stream

end SpeechTransducer
