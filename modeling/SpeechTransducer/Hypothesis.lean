import SpeechTransducer.Fault
import SpeechTransducer.Number.Fixed
import SpeechTransducer.Ranking
import SpeechTransducer.Score

/-!
Hypotheses of the search, and the container that keeps one for each token sequence.

Two paths to the same tokens are merged: their scores are combined by the container's rule, and
everything else is taken from the path that scores higher, the older one on a tie. The container
keeps its hypotheses in the order in which their token sequences were first added; that order
breaks the ties of a ranking.
-/

namespace SpeechTransducer

/-- One path of the search. -/
structure Hypothesis (S : Type) where
  /-- The token numbers, with the blanks of the initial context in front. -/
  tokens : List Int
  score : S
  /-- For every emission, the number of its frame. -/
  timestamps : List Int := []
  /-- How many frames in a row have emitted nothing. -/
  trailingBlanks : Int := 0
  /-- The node reached in the hotword graph, if there is one. -/
  contextState : Option Int := none
  deriving DecidableEq, Repr

/-- How the scores of two paths to the same tokens are combined. -/
inductive MergeRule where
  /-- The logarithm of the sum of both probabilities. -/
  | logSumExp
  /-- The better of both scores. -/
  | best
  deriving DecidableEq, Repr

/-- The name of a rule in settings. -/
def MergeRule.name : MergeRule → String
  | logSumExp => "log_sum_exp"
  | best => "max"

/-- A rule by its name in settings. -/
def MergeRule.named (name : String) : Except Fault MergeRule :=
  match [logSumExp, best].find? (·.name == name) with
  | some rule => .ok rule
  | none => .error (.unknownMergeRule name)

/-- Hypotheses with different tokens, in the order of their first addition. -/
structure Hypotheses (S : Type) where
  rule : MergeRule
  entries : List (Hypothesis S) := []

namespace Hypotheses

variable {S : Type}

/-- How many hypotheses there are. -/
def size (hs : Hypotheses S) : Nat := hs.entries.length

/-- Whether there is none. -/
def isEmpty (hs : Hypotheses S) : Bool := hs.entries.isEmpty

/-- Whether some hypothesis has these tokens. -/
def contains (hs : Hypotheses S) (tokens : List Int) : Bool :=
  hs.entries.any (·.tokens == tokens)

/-- The hypothesis with these tokens. -/
def get? (hs : Hypotheses S) (tokens : List Int) : Option (Hypothesis S) :=
  hs.entries.find? (·.tokens == tokens)

/-- Removes every hypothesis. -/
def clear (hs : Hypotheses S) : Hypotheses S := { hs with entries := [] }

section

variable [LT S] [DecidableLT S]

/-- The path that scores higher, the older one on a tie. -/
def stronger (old new : Hypothesis S) : Hypothesis S :=
  if old.score < new.score then new else old

end

section

variable [BEq S] [LT S] [DecidableLT S]

/-- Whether one hypothesis comes strictly before another in a ranking. -/
def ranksBefore (a b : Hypothesis S) : Bool := decide (b.score < a.score)

/-- Whether the score of a hypothesis can be compared with others. -/
def isRankable (h : Hypothesis S) : Bool := !isUndefined h.score

/-- The hypotheses by falling score, equal scores in the order of addition. -/
def ranked (hs : Hypotheses S) : List (Hypothesis S) :=
  Ranking.rank ranksBefore isRankable hs.entries

/-- The first `k` hypotheses of the ranking, in its order. -/
def top (hs : Hypotheses S) (k : Int) : List (Hypothesis S) := hs.ranked.take k.toNat

/-- The first `k` hypotheses of the ranking, in the order of addition. -/
def topByAge (hs : Hypotheses S) (k : Int) : List (Hypothesis S) :=
  let aged := hs.entries.zipIdx
  let ranked := Ranking.rank (fun a b => ranksBefore a.1 b.1) (fun a => isRankable a.1) aged
  let chosen := ranked.take k.toNat
  (aged.filter fun a => chosen.any (·.2 == a.2)).map (·.1)

/-- The first hypothesis of the ranking. -/
def best? (hs : Hypotheses S) : Option (Hypothesis S) := (hs.top 1).head?

/-- The first hypothesis of the ranking, of which there has to be one. -/
def best (hs : Hypotheses S) : Except Fault (Hypothesis S) :=
  match hs.best? with
  | some h => .ok h
  | none => .error .noHypothesis

end

section

variable [Add S] [Sub S] [LT S] [DecidableLT S] [LogScale S]

/-- Two paths to the same tokens as one. -/
def combine (rule : MergeRule) (old new : Hypothesis S) : Hypothesis S :=
  { stronger old new with
    tokens := old.tokens
    score :=
      match rule with
      | .logSumExp => logAdd old.score new.score
      | .best => (stronger old new).score }

/-- Adds a hypothesis to a list with different tokens: the one with its tokens is replaced in
place, or the hypothesis is put at the end. -/
def addTo (rule : MergeRule) (new : Hypothesis S) : List (Hypothesis S) → List (Hypothesis S)
  | [] => [new]
  | old :: rest =>
    if old.tokens = new.tokens then combine rule old new :: rest
    else old :: addTo rule new rest

/-- Adds a hypothesis. -/
def add (hs : Hypotheses S) (new : Hypothesis S) : Hypotheses S :=
  { hs with entries := addTo hs.rule new hs.entries }

/-- Adds hypotheses one after the other to an empty container. -/
def ofList (rule : MergeRule) (hs : List (Hypothesis S)) : Hypotheses S :=
  hs.foldl add { rule }

end

/-- Integers in brackets. -/
def integersText (ns : List Int) : String := "[" ++ ", ".intercalate (ns.map toString) ++ "]"

/-- The container as text: every token sequence with its score to four places. -/
def text (hs : Hypotheses Float) : String :=
  let entry (h : Hypothesis Float) := integersText h.tokens ++ ": " ++ Number.fixed 4 h.score
  "Hypotheses(" ++ ", ".intercalate (hs.entries.map entry) ++ ")"

end Hypotheses

end SpeechTransducer
