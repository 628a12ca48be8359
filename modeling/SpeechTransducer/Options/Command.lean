import SpeechTransducer.Configuration
import SpeechTransducer.Number.Literal
import SpeechTransducer.Options.Grammar
import SpeechTransducer.Storage.Path

/-!
The commands of the program: downloading a model, and decoding an audio file.
-/

namespace SpeechTransducer.Options

/-- What to download, and where to. -/
structure Download where
  repository : String := ""
  folder : Storage.Path := {}
  deriving DecidableEq, Repr

/-- What to decode, and how. -/
structure Decode where
  model : Storage.Path := {}
  audio : Storage.Path := {}
  configuration : Configuration := { detectEndpoints := false }
  /-- The endpoint thresholds in seconds: silence, silence after speech, and length. -/
  silence : Float := 2.4
  pause : Float := 1.2
  length : Float := 20
  isVerbose : Bool := false

/-- The work that a command line names. -/
inductive Command where
  | download (d : Download)
  | decode (d : Decode)

/-- The option that asks for help. -/
def helpSwitch {α : Type} : Switch α := ⟨["-h", "--help"], .help⟩

/-- The options and positions of downloading. -/
def downloadGrammar : Grammar Download where
  switches := [helpSwitch]
  positions :=
    [ ⟨"repo_id", fun d s => { d with repository := s }⟩,
      ⟨"download_dir", fun d s => { d with folder := .ofText s }⟩ ]

/-- The message about a value outside a list of choices. -/
def invalidChoice (value : String) (choices : List String) : String :=
  s!"invalid choice: {Text.quoted value} (choose from " ++
  ", ".intercalate (choices.map Text.quoted) ++ ")"

/-- A value that is one of several. -/
def choice {α : Type} (choices : List String) (set : α → String → α) : Effect α :=
  .value fun x s => if choices.contains s then .ok (set x s) else .error (invalidChoice s choices)

/-- A value that is any text. -/
def anyText {α : Type} (set : α → String → α) : Effect α := .value fun x s => .ok (set x s)

/-- A value that is an integer. -/
def integer {α : Type} (set : α → Int → α) : Effect α :=
  .value fun x s =>
    match Number.readInteger s with
    | .ok n => .ok (set x n)
    | .error _ => .error ("invalid int value: " ++ Text.quoted s)

/-- A value that is a number. -/
def number {α : Type} (set : α → Float → α) : Effect α :=
  .value fun x s =>
    match Number.readFloat s with
    | some y => .ok (set x y)
    | none => .error ("invalid float value: " ++ Text.quoted s)

/-- Changes the configuration of a decoding. -/
def Decode.configure (d : Decode) (f : Configuration → Configuration) : Decode :=
  { d with configuration := f d.configuration }

/-- Changes the settings of the model. -/
def Decode.configureModel (d : Decode) (f : ModelConfig → ModelConfig) : Decode :=
  d.configure fun c => { c with model := f c.model }

/-- Changes the settings of the search. -/
def Decode.configureSearch (d : Decode) (f : SearchConfig → SearchConfig) : Decode :=
  d.configure fun c => { c with search := f c.search }

/-- The options of decoding. -/
def decodeSwitches : List (Switch Decode) :=
  [ helpSwitch,
    ⟨["--method"], choice ["greedy_search", "modified_beam_search"] fun d s =>
      d.configureSearch fun c => { c with method := s }⟩,
    ⟨["--num-active-paths"], integer fun d n => d.configureSearch fun c => { c with width := n }⟩,
    ⟨["--num-threads"], integer fun d n => d.configureModel fun c => { c with threads := n }⟩,
    ⟨["--provider"], choice ["cpu", "cuda"] fun d s =>
      d.configureModel fun c => { c with provider := s }⟩,
    ⟨["--hotwords-file"], anyText fun d s => d.configure fun c => { c with hotwords := s }⟩,
    ⟨["--hotwords-score"], number fun d x => d.configure fun c => { c with hotwordReward := x }⟩,
    ⟨["--modeling-unit"], choice ["cjkchar", "bpe", "cjkchar+bpe"] fun d s =>
      d.configureModel fun c => { c with unit := s }⟩,
    ⟨["--bpe-vocab"], anyText fun d s => d.configureModel fun c => { c with subwords := s }⟩,
    ⟨["--enable-endpoint"], .mark fun d => d.configure fun c => { c with detectEndpoints := true }⟩,
    ⟨["--rule1-min-trailing-silence"], number fun d x => { d with silence := x }⟩,
    ⟨["--rule2-min-trailing-silence"], number fun d x => { d with pause := x }⟩,
    ⟨["--rule3-min-utterance-length"], number fun d x => { d with length := x }⟩,
    ⟨["--verbose"], .mark fun d => { d with isVerbose := true }⟩ ]

/-- The options and positions of decoding. -/
def decodeGrammar : Grammar Decode where
  switches := decodeSwitches
  positions :=
    [ ⟨"model_dir", fun d s => { d with model := .ofText s }⟩,
      ⟨"audio_file", fun d s => { d with audio := .ofText s }⟩ ]

/-- The configuration of a decoding, with its endpoint rules. -/
def Decode.settings (d : Decode) : Configuration :=
  { d.configuration with endpoints := .ofThresholds d.silence d.pause d.length }

/-- The names of the commands. -/
def commandNames : List String := ["download", "decode"]

/-- Reads the arguments of a command. -/
def readCommand (name : String) (args : List String) :
    Except Refusal (Command × List String) :=
  match name with
  | "download" => (downloadGrammar.read {} args).map fun (d, rest) => (.download d, rest)
  | "decode" => (decodeGrammar.read {} args).map fun (d, rest) => (.decode d, rest)
  | _ => .error (.misuse ("argument command: " ++ invalidChoice name commandNames))

/-- The options that may stand before the command. -/
def outerGrammar : Grammar Unit := ⟨[helpSwitch], []⟩

/-- Finds the command behind the options in front of it, and reads its arguments. Words that fit
nowhere come out in their order. -/
def readOuter : List String → List (Word Unit) → Except Refusal (Command × List String)
  | _, [] => .error (missing ["command"])
  | leftOver, w :: rest =>
    match w.kind with
    | .option none => readOuter (leftOver ++ [w.text]) rest
    | .option (some r) => do
      let _ ← r.use () []
      readOuter leftOver rest
    | .marker =>
      if rest.isEmpty then .error (missing ["command"]) else readCommand w.text []
    | .plain => do
      let (command, more) ← readCommand w.text (rest.map (·.text))
      return (command, leftOver ++ more)

/-- Reads a command line. -/
def readArguments (args : List String) : Except Refusal Command := do
  match ← readOuter [] (← outerGrammar.words args) with
  | (command, []) => return command
  | (_, leftOver) =>
    throw (.misuse ("unrecognized arguments: " ++ " ".intercalate leftOver))

end SpeechTransducer.Options
