import SpeechTransducer.Search.Beam
import SpeechTransducer.Search.Greedy

/-!
The search methods behind one set of operations.
-/

namespace SpeechTransducer.Search

/-- A search method with its settings. -/
inductive Method where
  | greedy
  | beam (b : Beam.Settings)

namespace Method

/-- The names of the methods in settings. -/
def names : List String := ["greedy_search", "modified_beam_search"]

/-- A method by its name. The width has to be positive where it is used. -/
def named (name : String) (width : Int) (rule : MergeRule) : Except Fault Method :=
  if name == "greedy_search" then .ok greedy
  else if name == "modified_beam_search" then
    if width < 1 then .error (.beamWidth width) else .ok (beam ⟨width.toNat, rule⟩)
  else .error (.unknownMethod name)

variable {σ S : Type} [Zero S] [Add S] [Sub S] [Neg S] [BEq S] [LT S] [DecidableLT S] [LogScale S]

/-- The state of a stream that has decoded nothing. -/
def start (m : Method) (net : Network σ S) : State S :=
  match m with
  | greedy => Greedy.start net
  | beam b => Beam.start net b

/-- The state whose tokens are those of the best path without the initial context. -/
def strip (m : Method) (net : Network σ S) (st : State S) : State S :=
  match m with
  | greedy => Greedy.strip net st
  | beam _ => Beam.strip net st

/-- Decodes one chunk of encoder output. -/
def decode (m : Method) (net : Network σ S) (graph : Option (Hotword.Graph S))
    (out : Argument S) : Run σ S Unit :=
  match m with
  | greedy => Greedy.decode net out
  | beam b => Beam.decode net b graph out

end Method

/-- A state whose paths stand at the root of the hotword graph, if there is one. -/
def State.atRoot {S : Type} (graph : Option (Hotword.Graph S)) (st : State S) : State S :=
  match graph with
  | none => st
  | some _ =>
    { st with
      hyps := st.hyps.map fun hs =>
        { hs with
          entries := hs.entries.map fun h =>
            { h with contextState := some (Hotword.Graph.root : Int) } } }

end SpeechTransducer.Search
