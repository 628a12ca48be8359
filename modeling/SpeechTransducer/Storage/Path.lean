/-!
Paths as they are written: names joined by slashes. Empty names and single dots are dropped; two
dots stay, because what they lead to depends on the files.
-/

namespace SpeechTransducer.Storage

/-- A path: what it starts from (nothing, one slash or two) and its names. -/
structure Path where
  start : String := ""
  names : List String := []
  deriving DecidableEq, Repr

namespace Path

/-- Reads a path. Exactly two slashes in front are kept apart from one. -/
def ofText (s : String) : Path :=
  let slashes := (s.toList.takeWhile (· == '/')).length
  { start := if slashes == 0 then "" else if slashes == 2 then "//" else "/"
    names := (s.splitOn "/").filter fun n => n != "" && n != "." }

/-- Whether a text names a folder by its ending: a slash, or a single dot after one. -/
def endsAsFolder (s : String) : Bool :=
  match s.toList.reverse with
  | '/' :: _ => true
  | '.' :: '/' :: _ => true
  | _ => false

/-- The text of a path; the empty path is written as a dot. -/
def text (p : Path) : String :=
  if p.start == "" && p.names.isEmpty then "." else p.start ++ "/".intercalate p.names

/-- Whether the path names its place from the top. -/
def isAbsolute (p : Path) : Bool := p.start != ""

/-- The path that a name leads to from a folder. -/
def child (p : Path) (name : String) : Path := { p with names := p.names ++ [name] }

/-- A path, seen from a folder. -/
def fromFolder (p folder : Path) : Path :=
  if p.isAbsolute then p else { folder with names := folder.names ++ p.names }

end Path

end SpeechTransducer.Storage
