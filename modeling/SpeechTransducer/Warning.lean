import SpeechTransducer.Text.Quoted

/-!
Conditions that are reported and do not stop the work.
-/

namespace SpeechTransducer

/-- A reported condition. -/
inductive Warning where
  | hotwordScore (item : String) (line : Nat)
  | hotwordSymbols (phrase : String) (line : Nat) (missing : List String)
  | hotwordsIgnored
  | resampling (source target : Int)
  deriving DecidableEq, Repr

/-- The wording of a report. -/
def Warning.message : Warning → String
  | hotwordScore item line => s!"Invalid hotword score '{item}' in line {line}, using the default"
  | hotwordSymbols phrase line missing =>
    s!"Skipping hotword '{phrase}' in line {line}: unknown symbols {Text.quotedList missing}"
  | hotwordsIgnored => "Hotwords are only used by modified_beam_search, ignoring them"
  | resampling source target => s!"Resampling audio from {source} Hz to {target} Hz"

end SpeechTransducer
