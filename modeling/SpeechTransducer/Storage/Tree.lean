import SpeechTransducer.Fault
import SpeechTransducer.Storage.Path

/-!
A tree of files, as the list of its files by their places. A folder is there if it was made or if a
file lies below it.
-/

namespace SpeechTransducer.Storage

/-- Files with their contents, and folders that were made. Places are lists of names from the
top. -/
structure Tree (α : Type) where
  files : List (List String × α) := []
  folders : List (List String) := []
  /-- The folder where paths start that do not start from the top. -/
  here : List String := []

namespace Tree

variable {α : Type}

/-- The file at a place. -/
def fileAt? (t : Tree α) (place : List String) : Option α := t.files.lookup place

/-- Whether a folder is at a place. -/
def isFolderAt (t : Tree α) (place : List String) : Bool :=
  place.isEmpty || t.folders.any (place.isPrefixOf ·) ||
  t.files.any fun f => place.isPrefixOf f.1 && place.length < f.1.length

/-- Follows names from a folder; two dots lead back out of it. Nothing lies below a file or below
what is not there. -/
def follow (t : Tree α) (place : List String) : List String → Option (List String)
  | [] => some place
  | name :: rest =>
    if t.isFolderAt place then
      t.follow (if name == ".." then place.dropLast else place ++ [name]) rest
    else none

/-- The place that a path starts from. -/
def startOf (t : Tree α) (p : Path) : List String := if p.isAbsolute then [] else t.here

/-- The place that a path leads to. -/
def place? (t : Tree α) (p : Path) : Option (List String) := t.follow (t.startOf p) p.names

/-- The file that a path leads to. -/
def file? (t : Tree α) (p : Path) : Option α := (t.place? p).bind t.fileAt?

/-- Whether a path leads to a folder. -/
def isFolder (t : Tree α) (p : Path) : Bool := ((t.place? p).map t.isFolderAt).getD false

/-- The files in a folder with their names, not those further down. -/
def filesIn (t : Tree α) (p : Path) : List (String × α) :=
  match t.place? p with
  | none => []
  | some place =>
    t.files.filterMap fun f =>
      if f.1.dropLast == place then f.1.getLast?.map (·, f.2) else none

/-- Puts a file at a place, in the stead of the one that is there. -/
def putAt (t : Tree α) (place : List String) (content : α) : Tree α :=
  { t with files := t.files.filter (·.1 != place) ++ [(place, content)] }

/-- Puts a file where a path leads. -/
def put (t : Tree α) (p : Path) (content : α) : Tree α :=
  match t.place? p with
  | some place => t.putAt place content
  | none => t

/-- Makes the folders along names from a folder. A file in the way of the last name takes the
folder's place; one in the way of an earlier name leaves nothing to make the rest in. -/
def makeAlong (t : Tree α) (p : Path) (place : List String) :
    List String → Except Fault (Tree α)
  | [] => .ok t
  | name :: rest =>
    let place := if name == ".." then place.dropLast else place ++ [name]
    if (t.fileAt? place).isSome then
      .error (if rest.isEmpty then .folderTaken p.text else .belowFile p.text)
    else
      let t := if t.isFolderAt place then t else { t with folders := t.folders ++ [place] }
      t.makeAlong p place rest

/-- Makes the folder that a path names and those above it, as far as they are not there. -/
def makeFolder (t : Tree α) (p : Path) : Except Fault (Tree α) :=
  t.makeAlong p (t.startOf p) p.names

end Tree

end SpeechTransducer.Storage
