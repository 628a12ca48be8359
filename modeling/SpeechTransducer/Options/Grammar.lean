import SpeechTransducer.Text.Digit
import SpeechTransducer.Text.Quoted

/-!
Command-line arguments. An argument is an option, a value, or the marker `--`, after which
everything is a value. Which of them it is depends on its spelling alone and is settled before any
argument is used. Options and positions are then filled from left to right; what fits nowhere is
left over. A long option may be cut short as long as it stays unique, and its value may follow an
equals sign.
-/

namespace SpeechTransducer.Options

/-- Why the arguments name no work: help was asked for, or something is wrong with them. -/
inductive Refusal where
  | help
  | misuse (message : String)
  deriving DecidableEq, Repr

/-- What an option does to the settings. -/
inductive Effect (α : Type) where
  | help
  /-- An option without a value. -/
  | mark (set : α → α)
  /-- An option with a value, which may be wrong. -/
  | value (set : α → String → Except String α)

/-- An option with its spellings. -/
structure Switch (α : Type) where
  names : List String
  effect : Effect α

/-- A position of a command, filled by a value. -/
structure Position (α : Type) where
  name : String
  set : α → String → α

/-- The options and positions of a command. -/
structure Grammar (α : Type) where
  switches : List (Switch α)
  positions : List (Position α)

/-- An argument read as an option: the option, the spelling that was meant, and the value in the
same argument. -/
structure Reading (α : Type) where
  switch : Switch α
  name : String
  given : Option (List Char) := none

/-- What an argument is. -/
inductive Kind (α : Type) where
  | plain
  | marker
  /-- An option, known or not. -/
  | option (reading : Option (Reading α))

/-- An argument with what it is. -/
structure Word (α : Type) where
  text : String
  kind : Kind α

variable {α : Type}

/-- The spellings of all options, each with its option. -/
def Grammar.spellings (g : Grammar α) : List (String × Switch α) :=
  g.switches.flatMap fun s => s.names.map (·, s)

/-- The part before the first equals sign, and the part after it if there is one. -/
def splitEquals : List Char → List Char × Option (List Char)
  | [] => ([], none)
  | c :: cs =>
    if c == '=' then ([], some cs)
    else
      let (before, after) := splitEquals cs
      (c :: before, after)

/-- The options that a long argument may stand for: those whose spelling it begins. -/
def Grammar.completions (g : Grammar α) (text : List Char) : List (Reading α) :=
  let (stem, given) := splitEquals text
  g.spellings.filterMap fun (name, switch) =>
    if stem.isPrefixOf name.toList then some { switch, name, given } else none

/-- The options that a short argument may stand for: the one of its first letter, whose value is
the rest, and those whose spelling it begins. -/
def Grammar.clusters (g : Grammar α) (text : List Char) : List (Reading α) :=
  g.spellings.filterMap fun (name, switch) =>
    if name.toList == text.take 2 then some { switch, name, given := some (text.drop 2) }
    else if text.isPrefixOf name.toList then some { switch, name }
    else none

/-- Digits, with a point before the last of them or without, up to the end of the text or a line
end there. -/
def isNegativeBody (cs : List Char) : Bool :=
  let isDigit (c : Char) : Bool := (Text.digitValue? c).isSome
  let ends (rest : List Char) : Bool := rest.isEmpty || rest == ['\n']
  let rest := cs.dropWhile isDigit
  let isWhole := !(cs.takeWhile isDigit).isEmpty && ends rest
  match rest with
  | '.' :: places =>
    !(places.takeWhile isDigit).isEmpty && ends (places.dropWhile isDigit)
  | _ => isWhole

/-- Whether a text is a negative number without an exponent, so that it is taken for a value. -/
def looksNegative : List Char → Bool
  | '-' :: cs => isNegativeBody cs
  | _ => false

/-- The message about an argument that several options begin with. -/
def ambiguous (text : String) (readings : List (Reading α)) : Refusal :=
  .misuse (s!"ambiguous option: {text} could match " ++ ", ".intercalate (readings.map (·.name)))

/-- What an argument before the marker is. -/
def Grammar.classify (g : Grammar α) (text : String) : Except Refusal (Kind α) :=
  let cs := text.toList
  match cs with
  | '-' :: second :: _ =>
    let exact (name : List Char) : Option (Switch α) := g.spellings.lookup (String.ofList name)
    let (stem, given) := splitEquals cs
    match exact cs, given, exact stem with
    | some switch, _, _ => .ok (.option (some { switch, name := text }))
    | none, some value, some switch =>
      .ok (.option (some { switch, name := String.ofList stem, given := some value }))
    | _, _, _ =>
      match if second == '-' then g.completions cs else g.clusters cs with
      | [reading] => .ok (.option (some reading))
      | [] => .ok (if looksNegative cs || cs.contains ' ' then .plain else .option none)
      | several => .error (ambiguous text several)
  | _ => .ok .plain

/-- The arguments with what they are. -/
def Grammar.words (g : Grammar α) : List String → Except Refusal (List (Word α))
  | [] => .ok []
  | text :: rest =>
    if text == "--" then .ok (⟨text, .marker⟩ :: rest.map (⟨·, .plain⟩))
    else do
      let kind ← g.classify text
      return ⟨text, kind⟩ :: (← g.words rest)

/-- The message about an option that is not used as it should be. -/
def Reading.misused (r : Reading α) (message : String) : Refusal :=
  .misuse ("argument " ++ "/".intercalate r.switch.names ++ ": " ++ message)

/-- The refusal of a value where none is taken. -/
def Reading.unwanted (r : Reading α) (value : List Char) : Refusal :=
  r.misused ("ignored explicit argument " ++ Text.quoted (String.ofList value))

/-- The short option, without its dash, that asks for help. -/
def helpLetter : Char := 'h'

/-- What comes of a short request for help with more in the same argument: the rest has to be the
same request again, any number of times. What is refused is the rest from the first letter on that
is another. -/
def Reading.helpCluster (r : Reading α) : List Char → Refusal
  | [] => .help
  | c :: cs => if c == helpLetter then r.helpCluster cs else r.unwanted (c :: cs)

/-- What comes of a request for help with a value. -/
def Reading.helpWith (r : Reading α) (value : List Char) : Refusal :=
  match r.name.toList, value with
  | ['-', _], c :: cs => r.helpCluster (c :: cs)
  | _, _ => r.unwanted value

/-- Gives an option the value that follows it. -/
def Reading.assign (r : Reading α) (set : α → String → Except String α) (x : α) (value : String) :
    Except Refusal α :=
  match set x value with
  | .ok x => .ok x
  | .error message => .error (r.misused message)

/-- Uses an option. Gives the settings, and the words after the option and its value. -/
def Reading.use (r : Reading α) (x : α) (rest : List (Word α)) :
    Except Refusal (α × List (Word α)) :=
  match r.switch.effect, r.given with
  | .help, some value => .error (r.helpWith value)
  | .help, none => .error .help
  | .mark _, some value => .error (r.unwanted value)
  | .mark set, none => .ok (set x, rest)
  | .value set, some value => do return (← r.assign set x (String.ofList value), rest)
  | .value set, none =>
    match rest with
    | ⟨value, .plain⟩ :: rest => do return (← r.assign set x value, rest)
    | _ => .error (r.misused "expected one argument")

/-- The words that fill one position: a value, with the marker before or after it. Gives them and
the words that follow. -/
def takeOne : List (Word α) → Option (List String × List (Word α))
  | ⟨text, .plain⟩ :: ⟨mark, .marker⟩ :: rest => some ([text, mark], rest)
  | ⟨text, .plain⟩ :: rest => some ([text], rest)
  | ⟨mark, .marker⟩ :: ⟨text, .plain⟩ :: rest => some ([mark, text], rest)
  | _ => none

/-- What fills a position: the first word that is left when one marker is taken out. Where the
value itself is spelled like the marker nothing is left, which is written as an empty list. -/
def positionValue (texts : List String) : String := ((texts.erase "--").head?).getD "[]"

/-- The settings, the positions not filled yet, and the words left over. -/
structure Progress (α : Type) where
  settings : α
  positions : List (Position α)
  leftOver : List String := []

/-- Fills as many positions as the words at the front allow. Gives the words that follow. -/
def fillAll (x : α) : List (Position α) → List (Word α) → α × List (Position α) × List (Word α)
  | [], words => (x, [], words)
  | p :: ps, words =>
    match takeOne words with
    | some (texts, rest) => fillAll (p.set x (positionValue texts)) ps rest
    | none => (x, p :: ps, words)

/-- Whether a word is an option. -/
def Word.isOption (w : Word α) : Bool :=
  match w.kind with
  | .option _ => true
  | _ => false

/-- Fills positions and uses options in turn. Every round uses up a word, so the number of words
bounds the rounds. -/
def consume : Nat → Progress α → List (Word α) → Except Refusal (Progress α)
  | 0, p, _ => .ok p
  | _, p, [] => .ok p
  | bound + 1, p, w :: rest =>
    match w.kind with
    | .option none => consume bound { p with leftOver := p.leftOver ++ [w.text] } rest
    | .option (some r) => do
      let (settings, rest) ← r.use p.settings rest
      consume bound { p with settings } rest
    | _ =>
      let (settings, positions, after) := fillAll p.settings p.positions (w :: rest)
      if after.length < rest.length + 1 then consume bound { p with settings, positions } after
      else
        let skipped := (w :: rest).takeWhile (!·.isOption)
        consume bound { p with leftOver := p.leftOver ++ skipped.map (·.text) }
          (rest.drop (skipped.length - 1))

/-- The message about positions without a value. -/
def missing (names : List String) : Refusal :=
  .misuse ("the following arguments are required: " ++ ", ".intercalate names)

/-- Reads arguments into settings. Gives the words left over as well. -/
def Grammar.read (g : Grammar α) (start : α) (args : List String) :
    Except Refusal (α × List String) := do
  let words ← g.words args
  let done ← consume (words.length + 1) { settings := start, positions := g.positions } words
  if done.positions.isEmpty then return (done.settings, done.leftOver)
  else throw (missing (done.positions.map (·.name)))

end SpeechTransducer.Options
