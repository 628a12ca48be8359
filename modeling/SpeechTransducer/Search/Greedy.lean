import SpeechTransducer.Search.State

/-!
Greedy search: every frame emits the token with the largest logit, unless that is the blank or the
unknown token. The prediction network runs again only after an emission.
-/

namespace SpeechTransducer.Search.Greedy

variable {σ S : Type}

/-- The state of a stream that has decoded nothing: the blanks of the initial context. -/
def start (net : Network σ S) : State S :=
  { tokens := List.replicate net.contextSize.toNat blankToken }

/-- Takes the blanks of the initial context away. -/
def strip (net : Network σ S) (st : State S) : State S :=
  { st with tokens := sliceFrom net.contextSize st.tokens }

/-- Runs the prediction network on the last tokens. -/
def predict (net : Network σ S) (tokens : List Int) : EStateM Fault σ (List (List S)) := do
  net.predict (← answered (net.contexts [tokens]))

variable [BEq S] [LT S] [DecidableLT S]

/-- The token with the largest logit in the first row. -/
def bestToken : List (List S) → Except Fault Int
  | [] => .error .noRow
  | row :: _ =>
    match rowPeakIndex row with
    | some v => .ok v
    | none => .error .emptyRow

/-- Decodes one frame. Gives the prediction rows for the next one. -/
def decodeFrame (net : Network σ S) (t : Int) (frame : List S) (prediction : List (List S)) :
    Run σ S (List (List S)) := do
  let logits ← ask (net.join frame prediction)
  let token ← answered (bestToken logits)
  if isEmission token then
    change (·.emit token t)
    let tokens ← look (·.tokens)
    ask (predict net tokens)
  else
    change (·.rest)
    return prediction

/-- Decodes frames from the one with number `t` on. -/
def decodeFrames (net : Network σ S) :
    Int → List (List S) → List (List S) → Run σ S (List (List S))
  | _, [], prediction => pure prediction
  | t, frame :: frames, prediction => do
    let prediction ← decodeFrame net t frame prediction
    decodeFrames net (t + 1) frames prediction

/-- Decodes one chunk of encoder output. -/
def decode (net : Network σ S) (out : Argument S) : Run σ S Unit := do
  let frames ← answered (encoderFrames out)
  let st ← look id
  let prediction ←
    match st.prediction with
    | some rows => pure rows
    | none => ask (predict net st.tokens)
  let prediction ← decodeFrames net st.frameOffset frames prediction
  change fun st =>
    { st with frameOffset := st.frameOffset + frames.length, prediction := some prediction }

end SpeechTransducer.Search.Greedy
