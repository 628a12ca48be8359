import SpeechTransducer.Search.Method

/-!
Searches whose networks carry something along that they neither read nor change. The search goes the
same way, and what is carried is the same at its end, whether or not the search goes through.
-/

namespace SpeechTransducer.Search

variable {σ τ S α β : Type}

/-- A call with something carried along. -/
def carrying (call : EStateM Fault σ α) : EStateM Fault (σ × τ) α := fun s =>
  match call s.1 with
  | .ok a network => .ok a (network, s.2)
  | .error f network => .error f (network, s.2)

/-- A search with something carried along by the networks. -/
def Run.carrying (run : Run σ S α) : Run (σ × τ) S α := fun s =>
  match run ⟨s.network.1, s.state⟩ with
  | .ok a s' => .ok a ⟨(s'.network, s.network.2), s'.state⟩
  | .error f s' => .error f ⟨(s'.network, s.network.2), s'.state⟩

/-- Networks with something carried along. -/
def Network.carrying (net : Network σ S) : Network (σ × τ) S where
  contextSize := net.contextSize
  batched := net.batched
  predict := fun rows => Search.carrying (net.predict rows)
  join := fun frame rows => Search.carrying (net.join frame rows)

section

variable (call : EStateM Fault σ α) (run : Run σ S α)

theorem carrying_bind (next : α → EStateM Fault σ β) :
    carrying (τ := τ) (call >>= next) = carrying call >>= fun a => carrying (next a) := by
  funext s
  simp only [carrying, bind, EStateM.bind]
  cases call s.1 with
  | ok a network => rfl
  | error f network => rfl

theorem carrying_answered (e : Except Fault α) :
    carrying (τ := τ) (answered e : EStateM Fault σ α) = answered e := by
  cases e <;> rfl

theorem Run.carrying_bind (next : α → Run σ S β) :
    Run.carrying (τ := τ) (run >>= next) = run.carrying >>= fun a => (next a).carrying := by
  funext s
  simp only [Run.carrying, bind, EStateM.bind]
  cases run ⟨s.network.1, s.state⟩ with
  | ok a s' => rfl
  | error f s' => rfl

theorem Run.carrying_answered (e : Except Fault α) :
    Run.carrying (τ := τ) (answered e : Run σ S α) = answered e := by
  cases e <;> rfl

theorem Run.carrying_ask :
    Run.carrying (τ := τ) (ask call : Run σ S α) = ask (Search.carrying call) := by
  funext s
  simp only [Run.carrying, ask, Search.carrying]
  cases call s.network.1 with
  | ok a network => rfl
  | error f network => rfl

end

section

variable (net : Network σ S)

theorem carrying_predictRows (rows : List (List Int)) :
    net.carrying.predictRows rows = carrying (τ := τ) (net.predictRows rows) := by
  have honeByOne (rows : List (List Int)) :
      Network.predictRows.oneByOne net.carrying rows =
        carrying (τ := τ) (Network.predictRows.oneByOne net rows) := by
    induction rows with
    | nil => rfl
    | cons row rest ih =>
        simp only [Network.predictRows.oneByOne, carrying_bind, ih]
        rfl
  rw [Network.predictRows, Network.predictRows]
  change (if net.batched then _ else _) = _
  rw [honeByOne]
  split <;> rfl

theorem Greedy.carrying_predict (tokens : List Int) :
    Greedy.predict net.carrying tokens = carrying (τ := τ) (Greedy.predict net tokens) := by
  rw [Greedy.predict, Greedy.predict, carrying_bind, carrying_answered]
  rfl

theorem Beam.carrying_predictAll (paths : List (Hypothesis S)) :
    Beam.predict.predictAll net.carrying paths =
      carrying (τ := τ) (Beam.predict.predictAll net paths) := by
  simp only [Beam.predict.predictAll, Search.carrying_bind, Search.carrying_answered,
    carrying_predictRows]
  rfl

theorem Beam.carrying_predict (isFirst : Bool) (paths : List (Hypothesis S)) :
    Beam.predict net.carrying isFirst paths =
      Run.carrying (τ := τ) (Beam.predict net isFirst paths) := by
  rw [Beam.predict, Beam.predict, Run.carrying_bind]
  congr 1
  funext kept
  rw [Beam.carrying_predictAll]
  split
  · rw [Beam.carrying_predictAll]
    change (if isFirst && _ == net.contextSize then _ else _) = _
    split
    · rfl
    · rw [Run.carrying_ask]
  · rw [Run.carrying_ask]

variable [BEq S] [LT S] [DecidableLT S]

theorem Greedy.carrying_decodeFrame (t : Int) (frame : List S) (prediction : List (List S)) :
    Greedy.decodeFrame net.carrying t frame prediction =
      Run.carrying (τ := τ) (Greedy.decodeFrame net t frame prediction) := by
  rw [Greedy.decodeFrame, Greedy.decodeFrame, Run.carrying_bind, Run.carrying_ask]
  congr 1
  funext logits
  rw [Run.carrying_bind, Run.carrying_answered]
  congr 1
  funext token
  split
  · simp only [Run.carrying_bind, Run.carrying_ask, Greedy.carrying_predict]
    rfl
  · rfl

theorem Greedy.carrying_decodeFrames (t : Int) (frames : List (List S))
    (prediction : List (List S)) :
    Greedy.decodeFrames net.carrying t frames prediction =
      Run.carrying (τ := τ) (Greedy.decodeFrames net t frames prediction) := by
  induction frames generalizing t prediction with
  | nil => rfl
  | cons frame frames ih =>
      simp only [Greedy.decodeFrames, Greedy.carrying_decodeFrame, Run.carrying_bind, ih]

theorem Greedy.carrying_decode (out : Argument S) :
    Greedy.decode net.carrying out = Run.carrying (τ := τ) (Greedy.decode net out) := by
  rw [Greedy.decode, Greedy.decode, Run.carrying_bind, Run.carrying_answered]
  congr 1
  funext frames
  rw [Run.carrying_bind]
  congr 1
  funext st
  cases st.prediction with
  | some rows =>
      dsimp only
      simp only [Greedy.carrying_decodeFrames, Run.carrying_bind]
      rfl
  | none =>
      dsimp only
      simp only [Greedy.carrying_decodeFrames, Greedy.carrying_predict, Run.carrying_bind,
        Run.carrying_ask]
      rfl

variable [Zero S] [Add S] [Sub S] [LogScale S]
variable (b : Beam.Settings) (graph : Option (Hotword.Graph S))

theorem Beam.carrying_decodeFrame (isFirst : Bool) (t : Int) (frame : List S)
    (paths : List (Hypothesis S)) :
    Beam.decodeFrame net.carrying b graph isFirst t frame paths =
      Run.carrying (τ := τ) (Beam.decodeFrame net b graph isFirst t frame paths) := by
  simp only [Beam.decodeFrame, Beam.carrying_predict, Run.carrying_bind, Run.carrying_ask,
    Run.carrying_answered]
  rfl

theorem Beam.carrying_decodeFrames (isFirst : Bool) (t : Int) (frames : List (List S))
    (hs : Hypotheses S) :
    Beam.decodeFrames net.carrying b graph isFirst t frames hs =
      Run.carrying (τ := τ) (Beam.decodeFrames net b graph isFirst t frames hs) := by
  induction frames generalizing isFirst t hs with
  | nil => rfl
  | cons frame frames ih =>
      rw [Beam.decodeFrames, Beam.decodeFrames]
      split
      · rfl
      · simp only [Beam.carrying_decodeFrame, Run.carrying_bind, ih]

theorem Beam.carrying_decode (out : Argument S) :
    Beam.decode net.carrying b graph out =
      Run.carrying (τ := τ) (Beam.decode net b graph out) := by
  rw [Beam.decode, Beam.decode, Run.carrying_bind, Run.carrying_answered]
  congr 1
  funext frames
  rw [Run.carrying_bind]
  congr 1
  funext st
  cases st.hyps with
  | none => rfl
  | some hs =>
      dsimp only
      split
      · rfl
      · simp only [Beam.carrying_decodeFrames, Run.carrying_bind]
        congr 1
        funext hs
        congr 1
        funext _
        cases hs.best? with
        | none => rfl
        | some h =>
            dsimp only
            simp only [Run.carrying_bind, Run.carrying_ask, Beam.carrying_predictAll]
            rfl

theorem Method.carrying_decode (m : Method) (out : Argument S) :
    m.decode net.carrying graph out = Run.carrying (τ := τ) (m.decode net graph out) := by
  cases m with
  | greedy => exact Greedy.carrying_decode net out
  | beam b => exact Beam.carrying_decode net b graph out

end

section

variable (net : Network σ S) (m : Method) [LT S] [DecidableLT S]

theorem Method.carrying_start [Zero S] [Add S] [Sub S] [LogScale S] :
    m.start (net.carrying (τ := τ)) = m.start net := by
  cases m <;> rfl

theorem Method.carrying_strip [BEq S] (st : State S) :
    m.strip (net.carrying (τ := τ)) st = m.strip net st := by
  cases m <;> rfl

end

end SpeechTransducer.Search
