import SpeechTransducer.Slice

/-!
The hotword graph: an automaton over token sequences that rewards the phrases it was built from.

Its nodes are the beginnings of the phrases, kept in an arena and named by their position; the root
is node 0. A node's failure link leads to the longest proper ending of its token path that is again
a beginning of a phrase; its output link leads to the longest such ending that is a whole phrase.
Nodes carry the reward collected on the way to them, so that leaving a partial match takes back
exactly what it earned.
-/

namespace SpeechTransducer.Hotword

/-- A node of the graph. -/
structure Node (S : Type) where
  /-- The token on the way into the node; -1 for the root. -/
  token : Int
  /-- The reward for that token. -/
  tokenScore : S
  /-- The reward collected from the root. -/
  nodeScore : S
  /-- The reward for the phrases that end here. -/
  outputScore : S
  /-- Whether a whole phrase ends here. -/
  isEnd : Bool
  /-- The number of tokens from the root. -/
  level : Nat
  /-- The children by their tokens, in the order in which they were made. -/
  next : List (Int × Nat) := []
  fail : Nat := 0
  output : Option Nat := none
  deriving Repr

/-- The child along a token. -/
def Node.child? {S : Type} (n : Node S) (token : Int) : Option Nat := n.next.lookup token

/-- The node that all phrases start from. -/
def Node.root {S : Type} [Zero S] : Node S where
  token := -1
  tokenScore := 0
  nodeScore := 0
  outputScore := 0
  isEnd := false
  level := 0

/-- The arena of a graph. -/
abbrev Arena (S : Type) := Array (Node S)

/-- The node at a position; a position outside the arena stands for the root. -/
def Arena.node {S : Type} [Zero S] (nodes : Arena S) (i : Nat) : Node S := nodes.getD i .root

section Building

variable {S : Type} [Zero S] [Add S] [LT S] [DecidableLT S]

/-- The node for a token below a parent, made by the first phrase that needs it. -/
def Node.fresh (parent : Node S) (token : Int) (score : S) (isEnd : Bool) : Node S where
  token := token
  tokenScore := score
  nodeScore := parent.nodeScore + score
  outputScore := if isEnd then parent.nodeScore + score else 0
  isEnd := isEnd
  level := parent.level + 1

/-- A node that a further phrase passes through: it keeps the larger reward for its token. -/
def Node.shared (n parent : Node S) (score : S) (isEnd : Bool) : Node S :=
  let tokenScore := if score < n.tokenScore then n.tokenScore else score
  let nodeScore := parent.nodeScore + tokenScore
  let isEnd := isEnd || n.isEnd
  { n with tokenScore, nodeScore, isEnd, outputScore := if isEnd then nodeScore else 0 }

/-- Adds the rest of a phrase below the node `at_`. -/
def Arena.addTokens (score : S) (nodes : Arena S) (at_ : Nat) : List Int → Arena S
  | [] => nodes
  | token :: rest =>
    let parent := nodes.node at_
    match parent.child? token with
    | some c =>
      let nodes := nodes.modify c fun n => n.shared parent score rest.isEmpty
      Arena.addTokens score nodes c rest
    | none =>
      let c := nodes.size
      let nodes := (nodes.modify at_ fun n => { n with next := n.next ++ [(token, c)] }).push
        (parent.fresh token score rest.isEmpty)
      Arena.addTokens score nodes c rest

/-- The arena of phrases with their rewards per token, without links. -/
def Arena.ofPhrases (phrases : List (List Int × S)) : Arena S :=
  phrases.foldl (fun nodes p => nodes.addTokens p.2 0 p.1) #[.root]

/-- Follows failure links until a node has a child along the token, and takes that child; the root
is the last resort. A failure link leads at least one level up, so the level of the start bounds
the steps. -/
def Arena.chase (nodes : Arena S) (token : Int) (steps : Nat) (i : Nat) : Nat :=
  match (nodes.node i).child? token with
  | some c => c
  | none =>
    match steps with
    | 0 => i
    | steps + 1 => if i == 0 then 0 else Arena.chase nodes token steps (nodes.node i).fail

/-- The nearest phrase end on the way along failure links, the start included. -/
def Arena.endOnChain (nodes : Arena S) (steps : Nat) (i : Nat) : Option Nat :=
  if (nodes.node i).isEnd then some i
  else
    match steps with
    | 0 => none
    | steps + 1 => if i == 0 then none else Arena.endOnChain nodes steps (nodes.node i).fail

/-- Sets the links of one child of a node whose own links are set. -/
def Arena.link (nodes : Arena S) (parent : Nat) (token : Int) (child : Nat) : Arena S :=
  let fail := (nodes.node parent).fail
  let fail := nodes.chase token (nodes.node fail).level fail
  let output := nodes.endOnChain (nodes.node fail).level fail
  let gain := fun score =>
    match output with
    | some o => score + (nodes.node o).outputScore
    | none => score
  nodes.modify child fun n => { n with fail, output, outputScore := gain n.outputScore }

/-- Sets the links of all nodes below those in the queue, nearest to the root first. Every node is
queued once, so the size of the arena bounds the rounds. -/
def Arena.linkAll (rounds : Nat) (queue : List Nat) (nodes : Arena S) : Arena S :=
  match rounds, queue with
  | 0, _ => nodes
  | _, [] => nodes
  | rounds + 1, i :: queue =>
    let children := (nodes.node i).next
    let nodes := children.foldl (fun nodes c => nodes.link i c.1 c.2) nodes
    Arena.linkAll rounds (queue ++ children.map (·.2)) nodes

end Building

/-- The graph of some phrases. -/
structure Graph (S : Type) where
  nodes : Arena S
  deriving Repr

namespace Graph

/-- The node that every walk starts from. -/
def root : Nat := 0

section

variable {S : Type} [Zero S] [Add S] [LT S] [DecidableLT S]

/-- The graph of phrases with their rewards per token. The root's children fail to the root and
need no link set. -/
def ofWeighted (phrases : List (List Int × S)) : Graph S :=
  let nodes := Arena.ofPhrases phrases
  ⟨nodes.linkAll nodes.size ((nodes.node root).next.map (·.2))⟩

/-- The graph of phrases with a default reward per token, and a reward of its own for each phrase
where scores are given; a score of zero stands for the default. -/
def ofPhrases [BEq S] (phrases : List (List Int)) (score : S) (scores : Option (List S)) :
    Except Fault (Graph S) :=
  match scores with
  | none => .ok (ofWeighted (phrases.map (·, score)))
  | some own =>
    if own.length = phrases.length then
      .ok (ofWeighted (List.zipWith (fun p s => (p, if s == 0 then score else s)) phrases own))
    else .error (.scoreCount own.length phrases.length)

end

variable {S : Type} [Zero S] [Add S] [Sub S] [Neg S] [LT S] [DecidableLT S]

/-- The number of nodes. -/
def size (g : Graph S) : Nat := g.nodes.size

/-- The node a walk is in after one more token, and the reward for the step before phrase ends
are counted. -/
def advance (g : Graph S) (i : Nat) (token : Int) : S × Nat :=
  let here := g.nodes.node i
  match here.child? token with
  | some c => ((g.nodes.node c).tokenScore, c)
  | none =>
    let j := g.nodes.chase token (g.nodes.node here.fail).level here.fail
    ((g.nodes.node j).nodeScore - here.nodeScore, j)

/-- One step that keeps every partial match going. -/
def strictStep (g : Graph S) (i : Nat) (token : Int) : S × Nat :=
  let (score, j) := g.advance i token
  (score + (g.nodes.node j).outputScore, j)

/-- One step that returns to the root when it completes a phrase, so that the phrase keeps its
whole reward. -/
def releasingStep [BEq S] (g : Graph S) (i : Nat) (token : Int) : S × Nat :=
  let (score, j) := g.advance i token
  let there := g.nodes.node j
  if there.outputScore == 0 then (score + there.outputScore, j)
  else (score + there.outputScore - there.nodeScore, root)

/-- One step, of either kind. -/
def step [BEq S] (g : Graph S) (strict : Bool) (i : Nat) (token : Int) : S × Nat :=
  if strict then g.strictStep i token else g.releasingStep i token

/-- The reward that takes back an unfinished match, and the root. -/
def finish (g : Graph S) (i : Nat) : S × Nat := (-(g.nodes.node i).nodeScore, root)

/-- The steps of a walk from a node. -/
def walk [BEq S] (g : Graph S) (strict : Bool) : Nat → List Int → List (S × Nat)
  | _, [] => []
  | i, token :: rest =>
    let r := g.step strict i token
    r :: g.walk strict r.2 rest

/-- The node with a number. A negative number counts from the end of the arena. -/
def index (g : Graph S) (state : Int) : Except Fault Nat := resolveEntry g.size state

end Graph

end SpeechTransducer.Hotword
