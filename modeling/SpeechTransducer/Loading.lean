import SpeechTransducer.Configuration
import SpeechTransducer.Hotword.Phrases
import SpeechTransducer.Recognizer
import SpeechTransducer.Storage.Library
import SpeechTransducer.Zipformer.Transducer

/-!
Recognizers from settings and files. What is wrong is found in a fixed order: the model's files,
the device, the model itself, the symbols, and then the settings of the search and the hotwords.
-/

namespace SpeechTransducer

/-- The devices that run networks. -/
def providers : List String := ["cpu", "cuda"]

/-- The name of the symbol table in a model's folder. -/
def tokensName : String := "tokens.txt"

/-- The names of the networks in a model's folder: encoder, prediction network and joiner. -/
def networkNames : String × String × String := ("encoder.onnx", "decoder.onnx", "joiner.onnx")

variable {σ : Type}

/-- A library whose network files are open. -/
abbrev ModelLibrary (σ : Type) := Storage.Library (Zipformer.Session σ Float)

/-- A file of such a library. -/
abbrev ModelFile (σ : Type) := Storage.Found (Zipformer.Session σ Float)

/-- The files of the networks of a model. -/
structure NetworkFiles (σ : Type) where
  encoder : ModelFile σ
  predictor : ModelFile σ
  joiner : ModelFile σ

/-- The networks in the folder of a model. -/
def NetworkFiles.inFolder (lib : ModelLibrary σ) (folder : String) : NetworkFiles σ :=
  let (encoder, predictor, joiner) := networkNames
  let find := lib.findIn (.ofText folder)
  ⟨find encoder, find predictor, find joiner⟩

/-- The networks in a repository. -/
def NetworkFiles.inRepository (lib : ModelLibrary σ) (repository : String) :
    Except Fault (NetworkFiles σ) := do
  let (encoder, predictor, joiner) := networkNames
  let encoder ← lib.fetch repository encoder
  let predictor ← lib.fetch repository predictor
  return ⟨encoder, predictor, ← lib.fetch repository joiner⟩

/-- The network in a file. -/
def openNetwork (file : ModelFile σ) (content : Storage.Content (Zipformer.Session σ Float)) :
    Except Fault (Zipformer.Session σ Float) :=
  match content with
  | .network session => .ok session
  | _ => .error (.unreadable file.path)

/-- Opens the networks of a model on a device. -/
def NetworkFiles.load (files : NetworkFiles σ) (provider : String) (bins : Int) :
    Except Fault (Zipformer.Transducer σ Float) := do
  let encoder ← files.encoder.need .model
  let predictor ← files.predictor.need .model
  let joiner ← files.joiner.need .model
  if !providers.contains provider then throw (.unknownProvider provider)
  let encoder ← openNetwork files.encoder encoder
  let predictor ← openNetwork files.predictor predictor
  Zipformer.Transducer.ofSessions encoder predictor (← openNetwork files.joiner joiner) bins

/-- Reads a symbol table. -/
def readSymbols {N : Type} (file : Storage.Found N) : Except Fault SymbolTable := do
  SymbolTable.ofLines (Text.lines (← (← file.need .tokens).text))

/-- Opens a subword model in a file. -/
def openSubwords {N : Type} (path : String) : Storage.Content N → Except Fault SubwordModel
  | .subwords model => if model.isSound then .ok model else .error (.unreadable path)
  | _ => .error (.unreadable path)

/-- Opens the subword model that a path leads to. The file is looked for by the path's names, but
opened by its text, which must not end like that of a folder. -/
def loadSubwords {N : Type} (lib : Storage.Library N) (path : String) :
    Except Fault SubwordModel := do
  let content ← (lib.find path).need .subwords
  if Storage.Path.endsAsFolder path then throw (.unreadable path)
  openSubwords path content

/-- Whether the name of a unit speaks of subwords. -/
def splitsIntoSubwords (unit : String) : Bool := 1 < (unit.splitOn "bpe").length

/-- The text of the hotwords file and, if phrases are split into subwords, the subword model. -/
def hotwordSources {N : Type} (lib : Storage.Library N) (c : Configuration) :
    Except Fault (String × Option SubwordModel) := do
  let path := Storage.Path.ofText c.hotwords
  let file : Storage.Found N := ⟨path.text, lib.disk.file? path⟩
  let content ← file.need .hotwords
  let model ←
    if splitsIntoSubwords c.model.unit then
      if c.model.subwords == "" then throw (.unitNeedsSubwordFile c.model.unit)
      else (loadSubwords lib c.model.subwords).map some
    else pure none
  return (← content.text, model)

/-- The hotword graph of a configuration. -/
def hotwordGraph {N : Type} (lib : Storage.Library N) (symbols : SymbolTable)
    (c : Configuration) : List Warning × Except Fault (Hotword.Graph Float) :=
  match hotwordSources lib c with
  | .error f => ([], .error f)
  | .ok (text, model) =>
    let splitter := model.map SubwordModel.encode
    let (warnings, phrases) := Hotword.encode c.model.unit symbols splitter (Text.lines text)
    (warnings, phrases.bind fun ps =>
      Hotword.Graph.ofPhrases (ps.map (·.tokens)) c.hotwordReward (some (ps.map (·.score))))

namespace Recognizer

/-- The recognizer of a configuration without hotwords. -/
def plain (model : Model σ Float) (symbols : SymbolTable) (c : Configuration) :
    Except Fault (Recognizer σ Float) := do
  if let some bins := model.bins then
    if bins ≠ c.features.bins then throw (.featureWidth bins c.features.bins)
  let method ← Search.Method.named c.search.method c.search.width c.search.rule
  return {
    model
    symbols
    frontEnd := c.features.frontEnd
    method
    endpoints := if c.detectEndpoints then some c.endpoints else none
    frameShift := 10 / 1000 }

/-- The recognizer of a configuration. Hotwords are used by a search that follows several paths;
any other ignores them, and says so. -/
def ofModel {N : Type} (lib : Storage.Library N) (model : Model σ Float) (symbols : SymbolTable)
    (c : Configuration) : List Warning × Except Fault (Recognizer σ Float) :=
  match plain model symbols c with
  | .error f => ([], .error f)
  | .ok r =>
    if c.hotwords == "" then ([], .ok r)
    else
      match r.method with
      | .greedy => ([.hotwordsIgnored], .ok r)
      | .beam _ =>
        let (warnings, graph) := hotwordGraph lib symbols c
        (warnings, graph.map fun g => { r with graph := some g })

/-- The recognizer of a configuration and the files of its model. -/
def ofFiles (lib : ModelLibrary σ) (networks : NetworkFiles σ) (tokens : ModelFile σ)
    (c : Configuration) : List Warning × Except Fault (Recognizer σ Float) :=
  let parts : Except Fault (Model σ Float × SymbolTable) := do
    let transducer ← networks.load c.model.provider c.features.bins
    return (transducer.model, ← readSymbols tokens)
  match parts with
  | .error f => ([], .error f)
  | .ok (model, symbols) => ofModel lib model symbols c

/-- The recognizer of a configuration that names the files of its model. -/
def ofConfiguration (lib : ModelLibrary σ) (c : Configuration) :
    List Warning × Except Fault (Recognizer σ Float) :=
  let tokens := Storage.Path.ofText c.model.tokens
  ofFiles lib ⟨lib.find c.model.encoder, lib.find c.model.predictor, lib.find c.model.joiner⟩
    ⟨tokens.text, lib.disk.file? tokens⟩ c

/-- The recognizer of a configuration with the model in a folder. -/
def ofFolder (lib : ModelLibrary σ) (folder : String) (c : Configuration) :
    List Warning × Except Fault (Recognizer σ Float) :=
  ofFiles lib (.inFolder lib folder) (lib.findIn (.ofText folder) tokensName) c

/-- The recognizer of a configuration with the model in a repository. -/
def ofRepository (lib : ModelLibrary σ) (repository : String) (c : Configuration) :
    List Warning × Except Fault (Recognizer σ Float) :=
  let files : Except Fault (NetworkFiles σ × ModelFile σ) := do
    return (← NetworkFiles.inRepository lib repository, ← lib.fetch repository tokensName)
  match files with
  | .error f => ([], .error f)
  | .ok (networks, tokens) => ofFiles lib networks tokens c

end Recognizer

end SpeechTransducer
