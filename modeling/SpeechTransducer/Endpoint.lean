import SpeechTransducer.Fault
import SpeechTransducer.Number.Binary

/-!
Endpoints: an utterance is over when one of three rules fires. A rule compares the trailing silence
and the length of the utterance with its thresholds, and may ask that the utterance is longer than
its trailing silence, so that something was said.
-/

namespace SpeechTransducer

/-- One endpoint rule; times are in seconds. -/
structure EndpointRule (S : Type) where
  mustContainSpeech : Bool
  minTrailingSilence : S
  minUtteranceLength : S
  deriving DecidableEq, Repr

/-- The three rules, in the order in which they are tried. -/
structure EndpointConfig (S : Type) where
  rule1 : EndpointRule S
  rule2 : EndpointRule S
  rule3 : EndpointRule S
  deriving DecidableEq, Repr

/-- The rules by their names. -/
def EndpointConfig.rules {S : Type} (c : EndpointConfig S) : List (String × EndpointRule S) :=
  [("rule1", c.rule1), ("rule2", c.rule2), ("rule3", c.rule3)]

/-- The usual rules: a long silence, a shorter silence after speech, and a long utterance. -/
def EndpointConfig.ofThresholds {S : Type} [Zero S] (silence pause length : S) :
    EndpointConfig S where
  rule1 := ⟨false, silence, 0⟩
  rule2 := ⟨true, pause, 0⟩
  rule3 := ⟨false, 0, length⟩

/-- The usual rules with their usual thresholds. -/
def EndpointConfig.standard : EndpointConfig Float := .ofThresholds 2.4 1.2 20.0

/-- Durations that can be counted. -/
class Countable (S : Type) where
  /-- The time that so many steps of a duration take, unless there are too many steps. -/
  times? : Int → S → Option S

instance : Countable Float where
  times? n x :=
    let steps := Number.ofInteger n
    if steps.isInf then none else some (steps * x)

section

variable {S : Type} [LT S] [DecidableLT S] [LE S] [DecidableLE S]

/-- Whether a rule fires. -/
def EndpointRule.fires (r : EndpointRule S) (trailingSilence utteranceLength : S) : Bool :=
  (decide (trailingSilence < utteranceLength) || !r.mustContainSpeech) &&
  decide (r.minTrailingSilence ≤ trailingSilence) &&
  decide (r.minUtteranceLength ≤ utteranceLength)

/-- The name of the first rule that fires. -/
def EndpointConfig.fired? (c : EndpointConfig S) (trailingSilence utteranceLength : S) :
    Option String :=
  (c.rules.find? fun r => r.2.fires trailingSilence utteranceLength).map (·.1)

/-- The time that so many frames take. -/
def timeOf [Countable S] (frames : Int) (frameShift : S) : Except Fault S :=
  match Countable.times? frames frameShift with
  | some t => .ok t
  | none => .error .timeTooLarge

/-- Whether an utterance of so many frames, so many of them silent at its end, is over. -/
def EndpointConfig.isEndpoint [Countable S] (c : EndpointConfig S) (frames silentFrames : Int)
    (frameShift : S) : Except Fault Bool := do
  let length ← timeOf frames frameShift
  let silence ← timeOf silentFrames frameShift
  return (c.fired? silence length).isSome

end

end SpeechTransducer
