import SpeechTransducer.Number.Binary
import SpeechTransducer.Rehearsal.Output
import SpeechTransducer.Search.Network
import SpeechTransducer.Tensor.Precision

/-!
Networks given by tables. They stand in for trained ones where a recognizer is rehearsed: what the
prediction network answers is written down by context, and the joiner adds its two inputs.
-/

namespace SpeechTransducer.Rehearsal

/-- A prediction network by table. -/
structure Table where
  vocabulary : Nat := 10
  /-- For endings of the context, what is added for which tokens. -/
  additions : List (List Int × List (Int × Float)) := []
  /-- Where it is not zero, every context is also given a pattern of its own with this period. -/
  period : Int := 0

/-- What the pattern adds for a token after a context. -/
def pattern (period : Int) (context : List Int) (token : Nat) : Float :=
  let weigh (c : Int × Nat) : Int := 31 * ((c.2 : Int) + 1) * c.1
  let h := (context.zipIdx.map weigh).foldl (· + ·) 0 + 17 * (token : Int)
  LogScale.single (Number.ofInteger ((h * h + h).fmod period) / 8)

/-- The output for one context. -/
def Table.row (t : Table) (context : List Int) : List Float :=
  let start := Array.replicate t.vocabulary (0 : Float)
  let matching := t.additions.filter fun a => a.1.isSuffixOf context
  let add (row : Array Float) (a : Int × Float) :=
    row.modify (place t.vocabulary a.1) (Number.addSingle · a.2)
  let added := (matching.flatMap (·.2)).foldl add start
  if t.period == 0 then added.toList
  else added.toList.zipIdx.map fun (x, v) => Number.addSingle x (pattern t.period context v)

/-- A joiner that adds its two inputs. -/
def addRows (xs ys : List (List Float)) : Except Fault (List (List Float)) :=
  (Tensor.addSingle (.ofRows .float32 xs) (.ofRows .float32 ys)).map fun sum =>
    sum.rows?.getD []

end SpeechTransducer.Rehearsal
