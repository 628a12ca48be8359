import SpeechTransducer.Symbols

/-!
Subword models: a text is spelled in single characters, and neighbouring pieces are merged as long
as some merge gives a known piece, the best-scored one first and the leftmost of equals.
-/

namespace SpeechTransducer

/-- The known pieces with their scores. -/
structure SubwordModel where
  pieces : List (String × Float)

namespace SubwordModel

/-- The score of a known piece. -/
def score? (m : SubwordModel) (piece : String) : Option Float := m.pieces.lookup piece

/-- The piece that stands for what is not known. -/
def unknownPiece : String := "<unk>"

/-- The pieces that stand for the two ends of a text, and for nothing in it. -/
def endPieces : List String := ["<s>", "</s>"]

/-- Whether a piece is a known one. -/
def knows (m : SubwordModel) (piece : String) : Bool :=
  piece != unknownPiece && (m.score? piece).isSome

/-- Whether the pieces make a model: none is empty, and none is given twice. -/
def isSound (m : SubwordModel) : Bool :=
  let names := m.pieces.map (·.1)
  names.all (· != "") && decide names.Nodup

/-- Where to merge next: the position of the left neighbour in the pair that makes the best known
piece. -/
def bestPair? (m : SubwordModel) : Nat → List String → Option (Nat × Float)
  | i, a :: b :: rest =>
    let later := m.bestPair? (i + 1) (b :: rest)
    match m.score? (a ++ b), later with
    | none, _ => later
    | some s, none => some (i, s)
    | some s, some (j, t) => if s < t then some (j, t) else some (i, s)
  | _, _ => none

/-- Joins the piece at a position with the next one. -/
def mergeAt : Nat → List String → List String
  | 0, a :: b :: rest => (a ++ b) :: rest
  | i + 1, a :: rest => a :: mergeAt i rest
  | _, pieces => pieces

/-- Merges until no merge gives a known piece. A merge leaves one piece less, so the number of
pieces bounds the rounds. -/
def mergeAll (m : SubwordModel) : Nat → List String → List String
  | 0, pieces => pieces
  | rounds + 1, pieces =>
    match m.bestPair? 0 pieces with
    | none => pieces
    | some (i, _) => m.mergeAll rounds (mergeAt i pieces)

/-- Joins neighbouring pieces that are both unknown. -/
def joinUnknown (m : SubwordModel) : List String → List String
  | [] => []
  | [a] => [a]
  | a :: next :: rest =>
    match m.joinUnknown (next :: rest) with
    | [] => [a]
    | b :: more =>
      if m.knows a || m.knows next then a :: b :: more else (a ++ b) :: more

/-- Word marks for the spaces of a text, one for each run of them. -/
def markSpaces : List Char → List Char
  | [] => []
  | ' ' :: ' ' :: cs => markSpaces (' ' :: cs)
  | ' ' :: cs => SymbolTable.wordMark :: markSpaces cs
  | c :: cs => c :: markSpaces cs

/-- The characters of a text, without the spaces in front, behind a word mark and with one for every
run of spaces. The text ends before its last word marks, also those that were not spaces. -/
def marked (text : String) : List Char :=
  match text.toList.dropWhile (· == ' ') with
  | [] => []
  | cs =>
    let all := SymbolTable.wordMark :: markSpaces cs
    (all.reverse.dropWhile (· == SymbolTable.wordMark)).reverse

/-- The pieces of a text. None of them can be a piece that stands for nothing in a text, though such
a piece may be known and come of a merge. -/
def encode (m : SubwordModel) (text : String) : Except Fault (List String) :=
  let spelled := (marked text).map String.singleton
  let merged := m.mergeAll spelled.length spelled
  if merged.any (endPieces.contains ·) then .error .unspellable else .ok (m.joinUnknown merged)

end SubwordModel

end SpeechTransducer
