import SpeechTransducer.Number.Literal
import SpeechTransducer.Text.Lines

/-!
The symbol table: token numbers and the symbols they stand for.

A line of a table names a symbol and its number. A later line with the same number replaces the
symbol, and keeps the place of the number in the table's order. Two numbers may share a symbol; the
later place in the table then answers for it.
-/

namespace SpeechTransducer

/-- Token numbers with their symbols, each number once. -/
structure SymbolTable where
  entries : List (Int × String) := []
  deriving Repr

namespace SymbolTable

/-- Sets the symbol of a number, in place if the number is there. -/
def putIn (id : Int) (symbol : String) : List (Int × String) → List (Int × String)
  | [] => [(id, symbol)]
  | e :: rest => if e.1 = id then (id, symbol) :: rest else e :: putIn id symbol rest

/-- Sets the symbol of a number. -/
def put (t : SymbolTable) (id : Int) (symbol : String) : SymbolTable :=
  ⟨putIn id symbol t.entries⟩

/-- The table of some pairs; the last pair of a number wins. -/
def ofPairs (pairs : List (Int × String)) : SymbolTable :=
  pairs.foldl (fun t p => t.put p.1 p.2) {}

/-- How many numbers there are. -/
def size (t : SymbolTable) : Nat := t.entries.length

/-- The symbol of a number, as it is written in the table. -/
def stored? (t : SymbolTable) (id : Int) : Option String := t.entries.lookup id

/-- The number of a symbol. -/
def id? (t : SymbolTable) (symbol : String) : Option Int :=
  (t.entries.reverse.find? (·.2 == symbol)).map (·.1)

/-- Whether the table has a symbol. -/
def contains (t : SymbolTable) (symbol : String) : Bool := (t.id? symbol).isSome

/-- The mark that stands for a space at the start of a word. -/
def wordMark : Char := '▁'

/-- The text of a symbol: word marks are spaces. -/
def shown (symbol : String) : String := symbol.map fun c => if c == wordMark then ' ' else c

/-- The text of a token. -/
def text (t : SymbolTable) (id : Int) : Except Fault String :=
  match t.stored? id with
  | some s => .ok (shown s)
  | none => .error (.unknownSymbolId id)

/-- The number of a symbol, which has to be in the table. -/
def idOf (t : SymbolTable) (symbol : String) : Except Fault Int :=
  match t.id? symbol with
  | some id => .ok id
  | none => .error (.unknownSymbol symbol)

/-- The number and symbol of a line: a symbol and its number, or the number alone for the space.
A blank line names nothing. -/
def readLine (line : String) : Except Fault (Option (Int × String)) :=
  match Text.words line with
  | [] => .ok none
  | [id] => (Number.readInteger id).map fun n => some (n, " ")
  | symbol :: id :: _ => (Number.readInteger id).map fun n => some (n, symbol)

/-- Reads a table line by line. -/
def ofLines (lines : List String) : Except Fault SymbolTable :=
  (lines.mapM readLine).map fun pairs => ofPairs (pairs.filterMap id)

end SymbolTable

end SpeechTransducer
