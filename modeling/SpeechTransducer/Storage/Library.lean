import SpeechTransducer.Storage.Tree
import SpeechTransducer.Subword
import SpeechTransducer.Text.Encoding

/-!
Where recognizers are loaded from: a tree of files, and repositories from which files are
downloaded.
-/

namespace SpeechTransducer.Storage

/-- What is in a file. Network files and subword models are opened by readers of their own; `N`
is what such a reader makes of a network file. -/
inductive Content (N : Type) where
  | bytes (b : ByteArray)
  | network (n : N)
  | subwords (m : SubwordModel)

/-- The text of a file. -/
def Content.text {N : Type} : Content N → Except Fault String
  | bytes b => Text.ofBytes b
  | _ => .error .undecodable

/-- A tree of files and the repositories with their files, each by its name. -/
structure Library (N : Type) where
  disk : Tree (Content N) := {}
  hub : List (String × List (String × Content N)) := []

/-- A file that was looked for: its path as it is written, and what is in it. -/
structure Found (N : Type) where
  path : String
  content : Option (Content N)

variable {N : Type}

/-- Looks for a file by its path. -/
def Library.find (lib : Library N) (path : String) : Found N :=
  ⟨path, lib.disk.file? (.ofText path)⟩

/-- Looks for a file in a folder. -/
def Library.findIn (lib : Library N) (folder : Path) (name : String) : Found N :=
  let path := folder.child name
  ⟨path.text, lib.disk.file? path⟩

/-- Downloads a file of a repository. -/
def Library.download (lib : Library N) (repository name : String) : Except Fault (Content N) :=
  match (lib.hub.lookup repository).bind (·.lookup name) with
  | some content => .ok content
  | none => .error (.missingDownload repository name)

/-- Downloads a file of a repository, as one that was found. -/
def Library.fetch (lib : Library N) (repository name : String) : Except Fault (Found N) :=
  (lib.download repository name).map fun content => ⟨repository ++ "/" ++ name, some content⟩

/-- The content of a file that has to be there. -/
def Found.need (file : Found N) (role : FileRole) : Except Fault (Content N) :=
  match file.content with
  | some content => .ok content
  | none => .error (.missingFile role file.path)

end SpeechTransducer.Storage
