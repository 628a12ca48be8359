import SpeechTransducer.CommandLine

/-!
The program itself: it reads the files that a command needs, runs the command, prints, and writes
what was downloaded.
-/

namespace SpeechTransducer.CommandLine

/-- A library of plain files; no network is open in it. -/
abbrev PlainLibrary := ModelLibrary Unit

/-- The files that a decoding may read. -/
def sources (d : Options.Decode) : List Storage.Path :=
  let (encoder, predictor, joiner) := networkNames
  let c := d.settings
  d.audio :: .ofText c.hotwords :: .ofText c.model.subwords ::
    [encoder, predictor, joiner, tokensName].map d.model.child

/-- Reads a file if it is there. -/
def readFile (path : String) : IO (Option ByteArray) := do
  try
    return some (← IO.FS.readBinFile path)
  catch _ => return none

/-- Reads files into a library, for paths from a folder. -/
def readLibrary (folder : Storage.Path) (paths : List Storage.Path) : IO PlainLibrary := do
  let mut files := []
  for path in paths do
    let path := path.fromFolder folder
    if let some bytes ← readFile path.text then
      files := files ++ [(path.names, Storage.Content.bytes bytes)]
  return { disk := { files, folders := [folder.names], here := folder.names } }

/-- Writes the files of a folder. -/
def writeFolder (disk : Storage.Tree (Storage.Content (Zipformer.Session Unit Float)))
    (folder : Storage.Path) : IO Unit := do
  if disk.isFolder folder then IO.FS.createDirAll folder.text
  for (name, content) in disk.filesIn folder do
    if let .bytes bytes := content then IO.FS.writeBinFile (folder.child name).text bytes

/-- Runs a command from a folder, and prints. Gives the exit code. -/
def perform (folder : Storage.Path) (command : Options.Command) : IO UInt32 := do
  let lib ← readLibrary folder <|
    match command with
    | .decode d => sources d
    | .download _ => []
  let begun ← IO.monoMsNow
  let outcome := run lib () command
  for warning in outcome.warnings do IO.eprintln warning.message
  for line in outcome.printed do IO.println line
  let ended ← IO.monoMsNow
  if let some s := outcome.summary then
    let elapsed := Float.ofNat (ended - begun) / 1000
    for line in s.lines (some elapsed) do IO.println line
  if let .download d := command then writeFolder outcome.disk d.folder
  match outcome.ending with
  | .failed f =>
    IO.eprintln f.message
    return 1
  | _ => return 0

/-- How the program is called. -/
def usage : String :=
  "usage: download REPOSITORY FOLDER\n       decode [OPTIONS] MODEL_FOLDER AUDIO_FILE\n"

end SpeechTransducer.CommandLine

open SpeechTransducer in
/-- Runs the program. -/
def main (args : List String) : IO UInt32 := do
  match Options.readArguments args with
  | .error .help =>
    IO.print CommandLine.usage
    return 0
  | .error (.misuse message) =>
    IO.eprintln (CommandLine.usage ++ "error: " ++ message)
    return 2
  | .ok command =>
    let folder ← IO.currentDir
    CommandLine.perform (.ofText folder.toString) command
