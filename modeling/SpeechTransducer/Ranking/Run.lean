/-!
Runs: stretches of a list that are in rank order already. A list is cut into runs, and a run that
is too short is filled up with the elements after it, each put in its place by bisection.
-/

namespace SpeechTransducer.Ranking

variable {α : Type}

/-- The longest stretch of the list along which every element is related to the one before it. -/
def chain (r : α → α → Bool) : α → List α → List α × List α
  | _, [] => ([], [])
  | x, y :: ys =>
    if r x y then
      let c := chain r y ys
      (y :: c.1, c.2)
    else ([], y :: ys)

/-- The initial run in ascending order, and the rest. A strictly descending run is reversed. -/
def firstRun (before : α → α → Bool) : List α → List α × List α
  | [] => ([], [])
  | [x] => ([x], [])
  | x :: y :: ys =>
    if before y x then
      let c := chain (fun p q => before q p) y ys
      ((x :: y :: c.1).reverse, c.2)
    else
      let c := chain (fun p q => !before q p) y ys
      (x :: y :: c.1, c.2)

/-- The end of a search for the place up to which a test holds. The nearer end of the middle is
probed, or the farther one, where the middle falls between two positions. -/
inductive End where
  | near | far
  deriving DecidableEq, Repr

/-- The position probed next between `l` and `r`. -/
def End.middle (e : End) (l r : Nat) : Nat :=
  match e with
  | near => l + (r - l) / 2
  | far => l + (r - l - 1) / 2

/-- The place between `l` and `r` up to which a test holds: each probe halves the stretch, and goes
on behind the probed position if the test holds there. -/
def bisect (e : End) (holds : Nat → Bool) (l r : Nat) : Nat :=
  if l < r then
    if holds (e.middle l r) then bisect e holds (e.middle l r + 1) r
    else bisect e holds l (e.middle l r)
  else l
termination_by r - l
decreasing_by all_goals cases e <;> simp only [End.middle] <;> omega

/-- Whether a test holds for the entry at a position. -/
def holdsAt (test : α → Bool) (xs : List α) (i : Nat) : Bool := (xs[i]?).any test

/-- Inserts `x` after all elements that it does not precede. -/
def insert (before : α → α → Bool) (sorted : List α) (x : α) : List α :=
  let p := bisect .near (holdsAt (fun y => !before x y) sorted) 0 sorted.length
  sorted.take p ++ x :: sorted.drop p

/-- The initial run, filled up to a length if there are elements left, and the rest. -/
def nextRun (before : α → α → Bool) (length : Nat) (xs : List α) : List α × List α :=
  let (run, rest) := firstRun before xs
  let lacking := length - run.length
  ((rest.take lacking).foldl (insert before) run, rest.drop lacking)

end SpeechTransducer.Ranking
