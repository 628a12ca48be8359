import SpeechTransducer.Symbols
import SpeechTransducer.Warning

/-!
Hotword lines: a line is a phrase, with a reward of its own or without. It becomes the token
numbers of its symbols; a line with symbols that the table lacks is passed over with a warning.
-/

namespace SpeechTransducer.Hotword

/-- How a phrase is split into symbols. -/
inductive ModelingUnit where
  /-- Single characters. -/
  | character
  /-- Subwords. -/
  | subword
  /-- Ideographs and syllables on their own, subwords between. -/
  | mixed
  deriving DecidableEq, Repr

/-- The name of a unit in settings. -/
def ModelingUnit.name : ModelingUnit → String
  | character => "cjkchar"
  | subword => "bpe"
  | mixed => "cjkchar+bpe"

/-- A unit by its name. -/
def ModelingUnit.named (name : String) : Except Fault ModelingUnit :=
  match [character, subword, mixed].find? (·.name == name) with
  | some u => .ok u
  | none => .error (.unknownUnit name)

/-- Whether a character stands for a syllable or a word of its own: unified ideographs and their
compatibility forms, kana, and Hangul syllables. -/
def isIdeograph (c : Char) : Bool :=
  let n := c.toNat
  (0x4e00 ≤ n && n ≤ 0x9fff) || (0x3400 ≤ n && n ≤ 0x4dbf) || (0xf900 ≤ n && n ≤ 0xfaff) ||
  (0x3040 ≤ n && n ≤ 0x30ff) || (0xac00 ≤ n && n ≤ 0xd7af)

/-- A stretch of a text: an ideograph, or characters between ideographs. -/
inductive Stretch where
  | ideograph (c : Char)
  | other (cs : List Char)
  deriving DecidableEq, Repr

/-- A text cut at its ideographs. -/
def stretches : List Char → List Stretch
  | [] => []
  | c :: cs =>
    if isIdeograph c then .ideograph c :: stretches cs
    else
      match stretches cs with
      | .other ds :: more => .other (c :: ds) :: more
      | more => .other [c] :: more

/-- What takes a text apart into subwords, or fails. -/
abbrev Splitter := String → Except Fault (List String)

/-- The symbols of a stretch. -/
def stretchSymbols (split : Splitter) : Stretch → Except Fault (List String)
  | .ideograph c => .ok [String.singleton c]
  | .other cs =>
    let trimmed := Text.trimChars cs
    if trimmed.isEmpty then .ok [] else split (String.ofList trimmed)

/-- The symbols of a phrase. -/
def phraseSymbols (unit : ModelingUnit) (splitter : Option Splitter) (words : List String) :
    Except Fault (List String) :=
  match unit, splitter with
  | .character, _ => .ok (words.flatMap fun w => w.toList.map String.singleton)
  | unit, none => .error (.unitNeedsSubwords unit.name)
  | .subword, some split => split (" ".intercalate words)
  | .mixed, some split => do
    let parts ← (stretches (" ".intercalate words).toList).mapM (stretchSymbols split)
    return parts.flatten

/-- The words of a line read so far, its reward, and what was reported about it. -/
structure Items where
  words : List String := []
  score : Float := 0
  warnings : List Warning := []

/-- Reads one more item. One that starts with a colon and goes on names the reward; if it names no
number it is reported and ignored. Any other item is a word. -/
def Items.read (line : Nat) (items : Items) (item : String) : Items :=
  match item.toList with
  | ':' :: c :: cs =>
    match Number.readFloat (String.ofList (c :: cs)) with
    | some score => { items with score }
    | none => { items with warnings := items.warnings ++ [.hotwordScore item line] }
  | _ => { items with words := items.words ++ [item] }

/-- A phrase as token numbers, with its reward per token. -/
structure Phrase where
  tokens : List Int
  score : Float

/-- The phrase of one line, if it has words that the table can spell. -/
def readLine (unit : ModelingUnit) (table : SymbolTable) (splitter : Option Splitter)
    (number : Nat) (line : String) : List Warning × Except Fault (Option Phrase) :=
  let { words, score, warnings } := (Text.words line).foldl (Items.read number) {}
  if words.isEmpty then (warnings, .ok none)
  else
    match phraseSymbols unit splitter words with
    | .error f => (warnings, .error f)
    | .ok symbols =>
      let missing := symbols.filter (!table.contains ·)
      if missing.isEmpty then
        (warnings, .ok (some ⟨symbols.filterMap table.id?, score⟩))
      else
        (warnings ++ [.hotwordSymbols (" ".intercalate words) number missing], .ok none)

/-- The phrases of numbered lines, with the warnings up to the first failure. -/
def readLines (unit : ModelingUnit) (table : SymbolTable) (splitter : Option Splitter) :
    Nat → List String → List Warning × Except Fault (List Phrase)
  | _, [] => ([], .ok [])
  | number, line :: rest =>
    let (warnings, phrase) := readLine unit table splitter number line
    match phrase with
    | .error f => (warnings, .error f)
    | .ok phrase =>
      let (more, phrases) := readLines unit table splitter (number + 1) rest
      (warnings ++ more, phrases.map (phrase.toList ++ ·))

/-- The phrases of hotword lines, which are numbered from 1. -/
def encode (unit : String) (table : SymbolTable) (splitter : Option Splitter)
    (lines : List String) : List Warning × Except Fault (List Phrase) :=
  match ModelingUnit.named unit with
  | .error f => ([], .error f)
  | .ok unit => readLines unit table splitter 1 lines

end SpeechTransducer.Hotword
