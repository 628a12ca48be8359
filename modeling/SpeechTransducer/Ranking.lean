import SpeechTransducer.Ranking.Merge

/-!
Ranking by comparisons.

Where all elements can be compared the result is the stable sort. Undefined scores cannot be
compared with anything. The ranking of a list that holds some is what merging its runs gives, a
fixed order as well: the list is cut into runs from the front, and of neighbouring runs those are
merged first whose boundary lies deepest in the binary division of the list.
-/

namespace SpeechTransducer.Ranking

variable {α : Type}

/-- The length up to which short runs are filled up: the leading six binary digits of the number of
elements, rounded up. -/
def shortest (n : Nat) : Nat :=
  if n < 64 then n
  else
    let scale := 1 <<< (n.log2 - 5)
    (n + scale - 1) / scale

/-- The depth of the boundary between two runs that start at a position of a list: the first binary
digit in which their midpoints differ, as parts of the length of the list. -/
def depth (n start left right : Nat) : Nat :=
  let a := 2 * start + left
  let b := a + left + right
  ((List.range (n + 1)).find? fun k => (a <<< k) / n != (b <<< k) / n).getD n

/-- A run that waits to be merged, with the depth of the boundary behind it. -/
structure Waiting (α : Type) where
  run : List α
  depth : Nat

/-- The runs found so far: the last one, those before it from the last to the first, and how patient
the next merging is. -/
structure Runs (α : Type) where
  last : List α
  earlier : List (Waiting α)
  patience : Nat

/-- Merges the last run with those before it that end at a deeper boundary than it does. -/
def settle (before : α → α → Bool) (depth : Nat) : Nat → List α → List (Waiting α) → Runs α
  | patience, last, [] => ⟨last, [], patience⟩
  | patience, last, w :: rest =>
    if depth < w.depth then
      let (patience, merged) := mergeRuns before patience w.run last
      settle before depth patience merged rest
    else ⟨last, w :: rest, patience⟩

/-- Puts the next run behind the others of a list of `n` elements. -/
def Runs.push (before : α → α → Bool) (n : Nat) (r : Runs α) (next : List α) : Runs α :=
  let start := r.earlier.foldl (fun n w => n + w.run.length) 0
  let depth := depth n start r.last.length next.length
  let settled := settle before depth r.patience r.last r.earlier
  { settled with last := next, earlier := ⟨settled.last, depth⟩ :: settled.earlier }

/-- Merges all runs, from the last one on. A run between two others goes with the shorter one. -/
def mergeAll (before : α → α → Bool) (patience : Nat) (last : List α) : List (List α) → List α
  | [] => last
  | [run] => (mergeRuns before patience run last).2
  | run :: first :: rest =>
    if first.length < last.length then
      let (patience, merged) := mergeRuns before patience first run
      mergeAll before patience last (merged :: rest)
    else
      let (patience, merged) := mergeRuns before patience run last
      mergeAll before patience merged (first :: rest)
termination_by runs => runs.length

/-- Cuts a list into runs and puts them behind those found so far. Every run takes elements, so the
number of elements bounds the runs. -/
def findRuns (before : α → α → Bool) (n : Nat) : Nat → Runs α → List α → Runs α
  | 0, r, _ => r
  | _, r, [] => r
  | bound + 1, r, xs =>
    let (next, rest) := nextRun before (shortest n) xs
    findRuns before n bound (r.push before n next) rest

/-- The order that merging the runs of a list gives. -/
def rankByRuns (before : α → α → Bool) (xs : List α) : List α :=
  let n := xs.length
  let (last, rest) := nextRun before (shortest n) xs
  let runs := findRuns before n n { last, earlier := [], patience := worthwhile } rest
  mergeAll before runs.patience runs.last (runs.earlier.map (·.run))

/-- The list in rank order, given which of its elements can be compared with others. -/
def rank (before : α → α → Bool) (comparable : α → Bool) (xs : List α) : List α :=
  if xs.all comparable then xs.mergeSort fun a b => !before b a else rankByRuns before xs

end SpeechTransducer.Ranking
