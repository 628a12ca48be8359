import SpeechTransducer.Loading
import SpeechTransducer.Text.Blank

/-!
The settings of the server, read from environment variables, and the recognizer that all its
conversations share.
-/

namespace SpeechTransducer.Conversation

/-- The settings of the server. -/
structure Settings where
  /-- Whether pages from everywhere may call the server. -/
  allowAllOrigins : Bool := false
  /-- The folder of the model. -/
  folder : Option String := none
  /-- The repository of the model, used if there is no folder. -/
  repository : Option String := none
  method : String := "modified_beam_search"
  detectEndpoints : Bool := true
  deriving DecidableEq, Repr

/-- The values of a variable that mean yes. -/
def affirmatives : List String := ["1", "true", "yes", "on"]

/-- Whether a value means yes. Blanks around it and the case of its letters do not matter. -/
def isAffirmative (value : String) : Bool := affirmatives.contains (Text.trim value).toLower

/-- The settings that an environment gives. -/
def Settings.ofEnvironment (environment : List (String × String)) : Settings where
  folder := environment.lookup "LOAD_FROM_FOLDER"
  repository := environment.lookup "HUGGING_FACE_REPO"
  method := (environment.lookup "DECODING_METHOD").getD "modified_beam_search"
  detectEndpoints := ((environment.lookup "ENABLE_ENDPOINT").map isAffirmative).getD true

/-- The configuration of the shared recognizer. -/
def Settings.configuration (s : Settings) : Configuration where
  search := { method := s.method }
  detectEndpoints := s.detectEndpoints

/-- Makes the shared recognizer, from a folder or from a repository. -/
def Settings.load {σ : Type} (s : Settings) (lib : ModelLibrary σ) :
    List Warning × Except Fault (Recognizer σ Float) :=
  match s.folder, s.repository with
  | some folder, _ => Recognizer.ofFolder lib folder s.configuration
  | none, some repository => Recognizer.ofRepository lib repository s.configuration
  | none, none => ([], .error .noModelSource)

/-- The shared recognizer, if it has been made. -/
def shared {σ S : Type} (r : Option (Recognizer σ S)) : Except Fault (Recognizer σ S) :=
  match r with
  | some r => .ok r
  | none => .error .notInitialized

/-- There is one shared recognizer; no other is made. -/
def another {α : Type} : Except Fault α := .error .sharedOnly

end SpeechTransducer.Conversation
