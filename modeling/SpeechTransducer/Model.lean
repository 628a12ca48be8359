import SpeechTransducer.Search.Network

/-!
The model of a recognizer: an encoder in front of the networks that a search asks. The encoder
reads windows of feature frames that overlap or leave gaps, and carries states of its own from one
call to the next.
-/

namespace SpeechTransducer

/-- The networks of a recognizer, over a state `σ` of their own and scores `S`. -/
structure Model (σ S : Type) extends Search.Network σ S where
  /-- The number of features in a frame, if the encoder insists on one. -/
  bins : Option Int := none
  /-- How many frames the encoder reads in one call. -/
  segment : Int
  /-- How many frames further on the next call reads. -/
  offset : Int
  /-- The encoder's states before its first call. -/
  initialStates : Except Fault (List (Tensor S))
  /-- Runs the encoder on a window of frames and the states left by the call before. -/
  encode : Tensor S → List (Tensor S) → EStateM Fault σ (Argument S × List (Tensor S))

end SpeechTransducer
