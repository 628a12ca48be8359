import SpeechTransducer.Audio.Wave
import SpeechTransducer.Loading
import SpeechTransducer.Number.Fixed
import SpeechTransducer.Options.Command

/-!
The program behind the command line, as a function of the files it finds: what it prints, what it
warns of, what it leaves on the disk, and how it ends.
-/

namespace SpeechTransducer.CommandLine

/-- The silence added to a recording, in seconds, so that the last words come within the encoder's
reach. -/
def tailSeconds : Float := 0.3

/-- The samples of silence added at a rate. -/
def tailLength (rate : Int) : Nat :=
  ((Number.truncate? (tailSeconds * Float.ofInt rate)).getD 0).toNat

section

variable {σ S : Type}
variable [Zero S] [Add S] [Sub S] [Neg S] [BEq S] [LT S] [DecidableLT S] [LE S] [DecidableLE S]
variable [LogScale S] [Countable S] [HMul Int S S]

/-- The transcripts of a recording, as far as they came, and the failure that ended them if there
was one. -/
structure Utterances (S : Type) where
  found : List (Transcript S) := []
  fault : Option Fault := none

/-- The last utterance, which is given out if it has a text or if there is no other. -/
def lastUtterance (r : Recognizer σ S) (isOnly : Bool) (st : Stream S) : Utterances S :=
  match r.transcript st with
  | .error f _ => { fault := some f }
  | .ok t _ => if t.text != "" || isOnly then { found := [t] } else {}

/-- Decodes what a stream holds, at most so many windows, and gives out the utterances with a text.
-/
def utterances (r : Recognizer σ S) : Nat → Bool → Session σ S → Utterances S
  | 0, isOnly, s => lastUtterance r isOnly s.stream
  | windows + 1, isOnly, s =>
    if !r.isReady s.stream then lastUtterance r isOnly s.stream
    else
      match r.decode s with
      | .error f _ => { fault := some f }
      | .ok _ s =>
        match r.isEndpoint s.stream with
        | .error f => { fault := some f }
        | .ok false => utterances r windows isOnly s
        | .ok true =>
          match r.transcript s.stream with
          | .error f _ => { fault := some f }
          | .ok t st =>
            let s := { s with stream := r.restart st }
            if t.text == "" then utterances r windows isOnly s
            else
              let more := utterances r windows false s
              { more with found := t :: more.found }

/-- A stream that holds a whole recording and the silence after it, with its input closed. -/
def recorded (r : Recognizer σ S) (tail : Nat) (samples : List S) :
    List Warning × Except Fault (Stream S) :=
  let array (xs : List S) : Argument S := .array { shape := [xs.length], data := xs.toArray }
  match r.newStream with
  | .error f => ([], .error f)
  | .ok st =>
    match st.accept r.frontEnd r.frontEnd.rate (array samples) with
    | (warnings, .error f _) => (warnings, .error f)
    | (warnings, .ok _ st) =>
      match st.accept r.frontEnd r.frontEnd.rate (array (List.replicate tail 0)) with
      | (more, .error f _) => (warnings ++ more, .error f)
      | (more, .ok _ st) =>
        match st.finish r.frontEnd with
        | .error f _ => (warnings ++ more, .error f)
        | .ok _ st => (warnings ++ more, .ok st)

/-- The utterances of a recording. -/
def transcribe (r : Recognizer σ S) (network : σ) (tail : Nat) (samples : List S) :
    List Warning × Utterances S :=
  match recorded r tail samples with
  | (warnings, .error f) => (warnings, { fault := some f })
  | (warnings, .ok stream) =>
    (warnings, utterances r (r.windowsLeft stream) true { network, stream })

end

/-- A transcript as it is printed. -/
def report (t : Transcript Float) : String :=
  s!"text: {t.text}\ntimestamps: " ++ " ".intercalate (t.timestamps.map (Number.fixed 2)) ++ "\n"

/-- What a decoding comes to: the texts of the utterances and the seconds of audio. -/
structure Summary where
  texts : List String
  duration : Float

/-- What is printed after the transcripts, given the seconds that decoding took if they are to be
printed. -/
def Summary.lines (s : Summary) (elapsed : Option Float) : List String :=
  let seconds := Number.fixed 3
  let rate (e : Float) : Float := e / (if s.duration < 1e-9 then 1e-9 else s.duration)
  let length := "Audio duration: " ++ seconds s.duration ++ " s"
  ("Text: " ++ " ".intercalate s.texts) ::
    match elapsed with
    | none => [length]
    | some e =>
      [ "Elapsed seconds: " ++ seconds e,
        length,
        "RTF: " ++ seconds e ++ "/" ++ seconds s.duration ++ " = " ++ seconds (rate e) ]

/-- How a run ends. -/
inductive Ending where
  | done
  | refused (r : Options.Refusal)
  | failed (f : Fault)

/-- What a run does: the printed lines, the summary printed after them if there is one, the
warnings, the files it leaves, and its ending. -/
structure Outcome (N : Type) where
  printed : List String := []
  summary : Option Summary := none
  warnings : List Warning := []
  disk : Storage.Tree (Storage.Content N)
  ending : Ending := .done

variable {σ : Type}

/-- The recognizer and the samples of a decoding. -/
def prepare (lib : ModelLibrary σ) (d : Options.Decode) :
    List Warning × Except Fault (Recognizer σ Float × List Int) :=
  let (warnings, r) := Recognizer.ofFolder lib d.model.text d.settings
  (warnings, do
    let r ← r
    return (r, ← Audio.Wave.load d.settings.features.rate ⟨d.audio.text, lib.disk.file? d.audio⟩))

/-- Decodes an audio file. -/
def runDecode (lib : ModelLibrary σ) (network : σ) (d : Options.Decode) :
    Outcome (Zipformer.Session σ Float) :=
  let disk := lib.disk
  match prepare lib d with
  | (warnings, .error f) => { warnings, disk, ending := .failed f }
  | (warnings, .ok (r, samples)) =>
    let rate := r.frontEnd.rate
    let (more, found) :=
      transcribe r network (tailLength rate) (samples.map r.frontEnd.sample)
    let warnings := warnings ++ more
    let printed := found.found.map report
    match found.fault with
    | some f => { printed, warnings, disk, ending := .failed f }
    | none =>
      let texts := found.found.map (·.text)
      let duration := Float.ofNat samples.length / Float.ofInt rate
      { printed, summary := some { texts, duration }, warnings, disk }

/-- Copies files of a repository into a folder, one after the other; all of them are downloaded
before the first is copied. -/
def copyFiles {N : Type} (lib : Storage.Library N) (repository : String) (folder : Storage.Path)
    (names : List String) : EStateM Fault (Storage.Tree (Storage.Content N)) Unit := fun disk =>
  match names.mapM fun name => (lib.download repository name).map (name, ·) with
  | .error f => .error f disk
  | .ok files => .ok () (files.foldl (fun disk file => disk.put (folder.child file.1) file.2) disk)

/-- Downloads a model: the networks, and then the symbols. -/
def copyModel {N : Type} (lib : Storage.Library N) (repository : String) (folder : Storage.Path) :
    EStateM Fault (Storage.Tree (Storage.Content N)) Unit := do
  let (encoder, predictor, joiner) := networkNames
  copyFiles lib repository folder [encoder, predictor, joiner]
  copyFiles lib repository folder [tokensName]

/-- Downloads a model into a folder, which is made if it is not there. -/
def runDownload {N : Type} (lib : Storage.Library N) (d : Options.Download) : Outcome N :=
  let folder := d.folder.fromFolder ⟨"/", lib.disk.here⟩
  let printed := ["Downloading model files from HuggingFace to " ++ folder.text]
  match lib.disk.makeFolder folder with
  | .error f => { printed, disk := lib.disk, ending := .failed f }
  | .ok disk =>
    match copyModel lib d.repository folder disk with
    | .ok _ disk => { printed, disk }
    | .error f disk => { printed, disk, ending := .failed f }

/-- Runs a command. -/
def run (lib : ModelLibrary σ) (network : σ) :
    Options.Command → Outcome (Zipformer.Session σ Float)
  | .download d => runDownload lib d
  | .decode d => runDecode lib network d

/-- Runs the program on its arguments. -/
def runArguments (lib : ModelLibrary σ) (network : σ) (args : List String) :
    Outcome (Zipformer.Session σ Float) :=
  match Options.readArguments args with
  | .error r => { disk := lib.disk, ending := .refused r }
  | .ok command => run lib network command

end SpeechTransducer.CommandLine
