import SpeechTransducer.Hotword.Graph
import SpeechTransducer.Search.State

/-!
Beam search with at most one emission per frame. All extensions of all paths by one token compete
for the places of the beam, so one path may have several successors. Successors with the same
tokens are merged, and tokens that go on in the hotword graph earn its reward.
-/

namespace SpeechTransducer.Search.Beam

/-- The width of a beam and the rule by which its paths merge. -/
structure Settings where
  width : Nat
  rule : MergeRule

variable {σ S : Type}

/-- One extension of a path: the path's rank, the token, and the score of both together. -/
structure Candidate (S : Type) where
  path : Nat
  token : Nat
  score : S
  deriving DecidableEq, Repr

/-- The extensions of all paths, path by path and token by token. -/
def candidates (rows : List (List S)) : List (Candidate S) :=
  rows.zipIdx.flatMap fun (row, path) => row.zipIdx.map fun (score, token) => { path, token, score }

section

variable [BEq S] [LT S] [DecidableLT S]

/-- Whether one score comes strictly before another: larger ones first, undefined ones last. -/
def comesBefore (x y : S) : Bool := decide (y < x) || (isUndefined y && !isUndefined x)

/-- The best extensions, best first; of equal ones those of higher-ranked paths and then those with
smaller tokens come first. -/
def best (k : Nat) (cs : List (Candidate S)) : List (Candidate S) :=
  (cs.mergeSort fun a b => !comesBefore b.score a.score).take k

end

section

variable [Zero S] [Add S] [Sub S] [BEq S] [LT S] [DecidableLT S] [LogScale S]

/-- The state of a stream that has decoded nothing: one path with the blanks of the initial
context. -/
def start (net : Network σ S) (b : Settings) : State S :=
  let blanks := List.replicate net.contextSize.toNat blankToken
  { tokens := blanks, hyps := some (Hypotheses.ofList b.rule [{ tokens := blanks, score := 0 }]) }

/-- Takes the tokens, without the blanks of the initial context, and the times from the best
path. -/
def strip (net : Network σ S) (st : State S) : State S :=
  match st.hyps.bind Hypotheses.best? with
  | none => { st with tokens := sliceFrom net.contextSize st.tokens }
  | some h =>
    { st with
      tokens := sliceFrom net.contextSize h.tokens
      timestamps := h.timestamps
      trailingBlanks := h.trailingBlanks }

/-- The scores of a path's extensions: its own score on top of the normalized logits. -/
def extensionScores (path : Hypothesis S) (logits : List S) : Except Fault (List S) :=
  match logSoftmax logits with
  | some row =>
    .ok (row.map fun x => LogScale.single (x + LogScale.single path.score))
  | none => .error .emptyReduction

/-- The paths that rows of logits are for, one for each row. A single path is spread over any number
of rows. Where they do not fit together, rows without entries are what fails first. -/
def owners (paths : List (Hypothesis S)) (logits : List (List S)) :
    Except Fault (List (Hypothesis S)) :=
  match paths with
  | [path] => .ok (List.replicate logits.length path)
  | _ =>
    if logits.length = paths.length then .ok paths
    else if logits.any (·.isEmpty) then .error .emptyReduction
    else .error (.rowCount logits.length ((logits.head?.map List.length).getD 0) paths.length)

/-- The scores of the extensions of all paths. -/
def scoreRows (paths : List (Hypothesis S)) (logits : List (List S)) :
    Except Fault (List (List S)) := do
  let ranked ← owners paths logits
  (ranked.zip logits).mapM fun (path, row) => extensionScores path row

section

variable [Neg S]

/-- A path extended by a token at frame `t`. -/
def extend (graph : Option (Hotword.Graph S)) (t : Int) (path : Hypothesis S) (token : Int)
    (score : S) : Except Fault (Hypothesis S) :=
  if isEmission token then
    let grown : Hypothesis S :=
      { path with
        tokens := path.tokens ++ [token]
        timestamps := path.timestamps ++ [t]
        trailingBlanks := 0 }
    match graph, path.contextState with
    | some g, some state => do
      let i ← g.index state
      let (reward, j) := g.releasingStep i token
      .ok { grown with score := score + reward, contextState := some (j : Int) }
    | _, _ => .ok { grown with score := score + 0 }
  else .ok { path with score := score + 0, trailingBlanks := path.trailingBlanks + 1 }

/-- The successors of the chosen extensions, merged in the order of the choice. -/
def successors (b : Settings) (graph : Option (Hotword.Graph S)) (t : Int)
    (paths : List (Hypothesis S)) (chosen : List (Candidate S)) :
    Except Fault (Hypotheses S) :=
  chosen.foldlM addSuccessor { rule := b.rule }
where
  addSuccessor (hs : Hypotheses S) (c : Candidate S) : Except Fault (Hypotheses S) :=
    match paths[c.path]? with
    | some path => (extend graph t path c.token c.score).map hs.add
    | none => .error .outOfRange

/-- The prediction rows of the ranked paths. The rows kept from before are used, once, on the first
frame of a chunk while there is a single path that has emitted nothing. -/
def predict (net : Network σ S) (isFirst : Bool) (paths : List (Hypothesis S)) :
    Run σ S (List (List S)) := do
  let kept ← look (·.prediction)
  match kept, paths with
  | some rows, [path] =>
    if isFirst && (path.tokens.length : Int) == net.contextSize then
      change fun st => { st with prediction := none }
      return rows
    else ask (predictAll [path])
  | _, _ => ask (predictAll paths)
where
  predictAll (paths : List (Hypothesis S)) : EStateM Fault σ (List (List S)) := do
    net.predictRows (← answered (net.contexts (paths.map (·.tokens))))

/-- Decodes one frame: the paths that follow the ranked ones. -/
def decodeFrame (net : Network σ S) (b : Settings) (graph : Option (Hotword.Graph S))
    (isFirst : Bool) (t : Int) (frame : List S) (paths : List (Hypothesis S)) :
    Run σ S (Hypotheses S) := do
  let prediction ← predict net isFirst paths
  let logits ← ask (net.join frame prediction)
  let rows ← answered (scoreRows paths logits)
  answered (successors b graph t paths (best b.width (candidates rows)))

/-- Decodes frames from the one with number `t` on, as long as there are paths. -/
def decodeFrames (net : Network σ S) (b : Settings) (graph : Option (Hotword.Graph S)) :
    Bool → Int → List (List S) → Hypotheses S → Run σ S (Hypotheses S)
  | _, _, [], hs => pure hs
  | isFirst, t, frame :: frames, hs =>
    match hs.top b.width with
    | [] => pure hs
    | paths => do
      let hs ← decodeFrame net b graph isFirst t frame paths
      decodeFrames net b graph false (t + 1) frames hs

/-- Decodes one chunk of encoder output. -/
def decode (net : Network σ S) (b : Settings) (graph : Option (Hotword.Graph S))
    (out : Argument S) : Run σ S Unit := do
  let frames ← answered (encoderFrames out)
  let st ← look id
  match st.hyps with
  | none => throw .searchWithoutHypotheses
  | some hs =>
    if frames.isEmpty then return
    let hs ← decodeFrames net b graph true st.frameOffset frames hs
    change fun st => { st with frameOffset := st.frameOffset + frames.length }
    match hs.best? with
    | none => return
    | some h =>
      change fun st => { st with hyps := some hs }
      let rows ← ask (predict.predictAll net [h])
      change fun st =>
        { st with
          prediction := some rows
          tokens := h.tokens
          timestamps := h.timestamps
          trailingBlanks := h.trailingBlanks }

end

end

end SpeechTransducer.Search.Beam
