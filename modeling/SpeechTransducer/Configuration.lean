import SpeechTransducer.Audio.FrontEnd
import SpeechTransducer.Endpoint
import SpeechTransducer.Hypothesis

/-!
The settings of a recognizer, with their usual values.
-/

namespace SpeechTransducer

/-- The files of a model, and how it is run. -/
structure ModelConfig where
  encoder : String := ""
  predictor : String := ""
  joiner : String := ""
  tokens : String := ""
  /-- How hotwords are split into symbols. -/
  unit : String := "cjkchar"
  /-- The subword model for hotwords. -/
  subwords : String := ""
  threads : Int := 2
  /-- The device that runs the networks. -/
  provider : String := "cpu"
  deriving DecidableEq, Repr

/-- The settings of the search. -/
structure SearchConfig where
  method : String := "greedy_search"
  /-- The width of the beam. -/
  width : Int := 4
  rule : MergeRule := .logSumExp

/-- The settings of a recognizer. -/
structure Configuration where
  features : Audio.FeatureConfig := {}
  model : ModelConfig := {}
  search : SearchConfig := {}
  endpoints : EndpointConfig Float := .standard
  detectEndpoints : Bool := true
  /-- The file with hotwords, if its name is not empty. -/
  hotwords : String := ""
  /-- The reward of a hotword token without one of its own. -/
  hotwordReward : Float := 1.5

end SpeechTransducer
