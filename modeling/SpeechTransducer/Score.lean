/-!
Scores of decoding paths, as operations rather than one number type.

The search adds, compares and takes logarithms of scores, and nothing else. Programs run it on
`Float`; statements about exact arithmetic choose an exact carrier. Everything that only adds and
compares asks for the ordinary classes, so that any ordered ring will do; `LogScale` names what the
search needs beyond them.
-/

namespace SpeechTransducer

/-- Exponentials and logarithms of scores, the score of an impossible path, and the rounding that
network outputs go through (the identity on an exact carrier). -/
class LogScale (S : Type) where
  exp : S → S
  log : S → S
  /-- The logarithm of one plus the argument, accurate near zero. -/
  log1p : S → S
  /-- Whether the score is that of an impossible path, log 0. -/
  isImpossible : S → Bool
  /-- Rounds to the precision of network outputs. -/
  single : S → S

section

variable {S : Type} [Add S] [Sub S] [LT S] [DecidableLT S] [LogScale S]

/-- The logarithm of the sum of two probabilities given by their logarithms. The larger one is
taken out, so that only a number between 0 and 1 is ever exponentiated. -/
def logAdd (a b : S) : S :=
  if LogScale.isImpossible a then b
  else if LogScale.isImpossible b then a
  else if a < b then b + LogScale.log1p (LogScale.exp (a - b))
  else a + LogScale.log1p (LogScale.exp (b - a))

end

section

variable {S : Type} [BEq S] [LT S] [DecidableLT S]

/-- Whether a score is unequal to itself, as an undefined floating-point number is. -/
def isUndefined (x : S) : Bool := !(x == x)

/-- The larger of two scores; an undefined one wins, and the first of two equal ones stays. -/
def peak (x y : S) : S :=
  if isUndefined x then x else if isUndefined y then y else if x < y then y else x

/-- The largest score of a row: its first undefined entry if it has one. -/
def rowPeak : List S → Option S
  | [] => none
  | x :: xs => some (xs.foldl peak x)

/-- The position of the largest score of a row, the first of several equal ones; an undefined
score counts as the largest. -/
def rowPeakIndex : List S → Option Nat
  | [] => none
  | x :: xs => some (go xs 1 x 0)
where
  go : List S → Nat → S → Nat → Nat
    | [], _, _, at_ => at_
    | y :: ys, i, best, at_ =>
      if isUndefined best then at_
      else if isUndefined y || best < y then go ys (i + 1) y i
      else go ys (i + 1) best at_

end

section

variable {S : Type} [Zero S] [Add S] [Sub S] [BEq S] [LT S] [DecidableLT S] [LogScale S]

/-- Normalizes a row of logits to logarithms of probabilities. The largest logit is taken out
first, so no exponential overflows. An empty row has no largest logit and gives nothing. -/
def logSoftmax (row : List S) : Option (List S) :=
  (rowPeak row).map fun m =>
    let shifted := row.map fun x => LogScale.single (x - m)
    let total := (shifted.map fun x => LogScale.single (LogScale.exp x)).foldl (· + ·) 0
    let logTotal := LogScale.single (LogScale.log (LogScale.single total))
    shifted.map fun x => LogScale.single (x - logTotal)

end

/-- The logarithm of `1 + x` for `x` between 0 and 1. Where `1 + x` rounds, the quotient
`log u / (u - 1)` of the rounded sum is scaled back by `x`. -/
def log1pSmall (x : Float) : Float :=
  let u := 1 + x
  if u == 1 then x else Float.log u * x / (u - 1)

instance : LogScale Float where
  exp := Float.exp
  log := Float.log
  log1p := log1pSmall
  isImpossible x := x == -(1 / 0)
  single x := x.toFloat32.toFloat

end SpeechTransducer
