import SpeechTransducer.Score

/-!
Sums of many numbers in single precision. A long list is halved and its halves are summed apart, so
that rounding errors do not pile up; a short one is summed in eight lanes side by side.
-/

namespace SpeechTransducer.Number

/-- The sum of two numbers in single precision. -/
def addSingle (x y : Float) : Float := LogScale.single (x + y)

/-- The sum of a list from the front. -/
def addInOrder (start : Float) (xs : List Float) : Float := xs.foldl addSingle start

/-- The sums of the lanes of a list, of which each has every eighth number. -/
def lanes (start : List Float) : Nat → List Float → List Float
  | 0, _ => start
  | rounds + 1, xs => lanes (List.zipWith addSingle start (xs.take 8)) rounds (xs.drop 8)

/-- Neighbours added, as long as there are several numbers; eight of them take three rounds. -/
def addNeighbours : List Float → List Float
  | x :: y :: rest => addSingle x y :: addNeighbours rest
  | xs => xs

/-- The sum of a list of at most 128 numbers. -/
def sumShort (xs : List Float) : Float :=
  if xs.length < 8 then addInOrder 0 xs
  else
    let rounds := xs.length / 8
    let sums := lanes (xs.take 8) (rounds - 1) (xs.drop 8)
    let whole := (addNeighbours (addNeighbours (addNeighbours sums))).headD 0
    addInOrder whole (xs.drop (8 * rounds))

/-- The sum of a list, halved so many times at most. -/
def sumHalves : Nat → List Float → Float
  | 0, xs => sumShort xs
  | halvings + 1, xs =>
    if xs.length ≤ 128 then sumShort xs
    else
      let middle := xs.length / 2 / 8 * 8
      addSingle (sumHalves halvings (xs.take middle)) (sumHalves halvings (xs.drop middle))

/-- The sum of a list in single precision. -/
def sumSingle (xs : List Float) : Float := sumHalves (xs.length.log2 + 1) xs

end SpeechTransducer.Number
