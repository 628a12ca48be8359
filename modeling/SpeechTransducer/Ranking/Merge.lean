import SpeechTransducer.Ranking.Run

/-!
Two neighbouring runs made into one. Elements are compared one by one until one of the runs has
won several times in a row; from then on the merging leaps, which means that it looks for the
stretch that can be moved as a whole. It goes back to single steps when leaps become short. The
shorter run decides from which end the merging starts.
-/

namespace SpeechTransducer.Ranking

variable {α : Type}

/-- Doubles a distance as long as a test holds there. Gives the last distance at which it was found
to hold, and the first at which it was not, or a position behind the end. -/
def stride (holds : Nat → Bool) (n last next : Nat) : Nat × Nat :=
  if next < n && holds next then stride holds n next (2 * next + 1) else (last, next)
termination_by n - next
decreasing_by simp_all; omega

/-- The length of the stretch at the front of a list for which a test holds, found by strides and
then by bisection. -/
def leap (e : End) (test : α → Bool) (xs : List α) : Nat :=
  if holdsAt test xs 0 then
    let (last, next) := stride (holdsAt test xs) xs.length 0 1
    bisect e (holdsAt test xs) (last + 1) (min next xs.length)
  else 0

/-- Two runs on their way into one, both seen from the end where the merging starts. Of the first
one an element is kept to the last. -/
structure Merging (α : Type) where
  merged : List α := []
  first : List α
  second : List α

namespace Merging

/-- Moves elements of the first run. -/
def takeFirst (m : Merging α) (count : Nat) : Merging α :=
  { m with merged := m.merged ++ m.first.take count, first := m.first.drop count }

/-- Moves elements of the second run. -/
def takeSecond (m : Merging α) (count : Nat) : Merging α :=
  { m with merged := m.merged ++ m.second.take count, second := m.second.drop count }

/-- Whether what is left of the runs needs no comparison. -/
def isOver (m : Merging α) : Bool := m.first.length ≤ 1 || m.second.isEmpty

/-- The merged elements with those left over, of which the last one of the first run comes last. -/
def result (m : Merging α) : List α := m.merged ++ m.second ++ m.first

end Merging

/-- How runs are merged: from which end leaps are measured, and whether the head of the second run
goes before that of the first. -/
structure Manner (α : Type) where
  measured : End
  passes : α → α → Bool

/-- From the front. -/
def forward (before : α → α → Bool) : Manner α := ⟨.near, fun x y => before y x⟩

/-- From the back, where both runs are reversed and change their roles. -/
def backward (before : α → α → Bool) : Manner α := ⟨.far, before⟩

namespace Manner

/-- Single steps, until one run has won so many times in a row. Every step moves an element, so the
number of elements bounds the steps. -/
def step (c : Manner α) (patience : Nat) : Nat → Bool → Nat → Merging α → Merging α
  | 0, _, _, m => m
  | bound + 1, lastPassed, wins, m =>
    match m.first, m.second with
    | x :: _, y :: _ =>
      if m.isOver || patience ≤ wins then m
      else
        let passed := c.passes x y
        step c patience bound passed (if passed == lastPassed then wins + 1 else 1)
          (if passed then m.takeSecond 1 else m.takeFirst 1)
    | _, _ => m

/-- Moves the elements of the first run before the head of the second, and that head. Gives the
length of the leap. -/
def leapFirst (c : Manner α) (m : Merging α) : Nat × Merging α :=
  match m.second with
  | [] => (0, m)
  | y :: _ =>
    let length := leap c.measured (fun x => !c.passes x y) m.first
    let m := m.takeFirst length
    (length, if m.isOver then m else m.takeSecond 1)

/-- Moves the elements of the second run before the head of the first, and that head. Gives the
length of the leap. -/
def leapSecond (c : Manner α) (m : Merging α) : Nat × Merging α :=
  match m.first with
  | [] => (0, m)
  | x :: _ =>
    let length := leap c.measured (fun y => c.passes x y) m.second
    let m := m.takeSecond length
    (length, if m.isOver then m else m.takeFirst 1)

/-- A leap in the left one of the runs and then one in the right one. Gives the longer length. -/
def leapBoth (c : Manner α) (m : Merging α) : Nat × Merging α :=
  let (left, right) :=
    match c.measured with
    | .near => (c.leapFirst, c.leapSecond)
    | .far => (c.leapSecond, c.leapFirst)
  let (length, m) := left m
  if m.isOver then (length, m)
  else
    let (other, m) := right m
    (max length other, m)

end Manner

/-- The length from which on a leap is worth its search. -/
def worthwhile : Nat := 7

namespace Manner

/-- Leaps as long as they are worthwhile. Every pair of leaps that pays makes the merging less
patient with single steps, and the one that does not makes it more patient. -/
def leaps (c : Manner α) : Nat → Nat → Merging α → Nat × Merging α
  | 0, patience, m => (patience, m)
  | bound + 1, patience, m =>
    let (length, m) := c.leapBoth m
    if m.isOver then (patience, m)
    else if worthwhile ≤ length then c.leaps bound (max 1 (patience - 1)) m
    else (patience + 1, m)

/-- Single steps and leaps in turn, until the merging is over. -/
def run (c : Manner α) (size : Nat) : Nat → Nat → Merging α → Nat × Merging α
  | 0, patience, m => (patience, m)
  | bound + 1, patience, m =>
    let m := c.step patience size false 0 m
    if m.isOver then (patience, m)
    else
      let (patience, m) := c.leaps size patience m
      if m.isOver then (patience, m) else run c size bound patience m

/-- Merges two runs, of which the head of the second is known to go first. -/
def merge (c : Manner α) (patience : Nat) (first second : List α) : Nat × List α :=
  let size := first.length + second.length
  let m := Merging.takeSecond { first, second } 1
  let (patience, m) := if m.isOver then (patience, m) else c.run size size patience m
  (patience, m.result)

end Manner

/-- Merges two neighbouring runs. What stands in its place already at both ends is left there. -/
def mergeRuns (before : α → α → Bool) (patience : Nat) (left right : List α) : Nat × List α :=
  match right with
  | [] => (patience, left)
  | y :: _ =>
    let settled := leap .near (fun x => !before y x) left
    let a := left.drop settled
    match a.getLast? with
    | none => (patience, left ++ right)
    | some x =>
      let count := right.length - leap .far (fun y => !before y x) right.reverse
      let b := right.take count
      if b.isEmpty then (patience, left ++ right)
      else
        let (patience, merged) :=
          if a.length ≤ b.length then (forward before).merge patience a b
          else
            let (patience, reversed) := (backward before).merge patience b.reverse a.reverse
            (patience, reversed.reverse)
        (patience, left.take settled ++ merged ++ right.drop count)

end SpeechTransducer.Ranking
