import SpeechTransducer.Proofs.Search.Computing
import SpeechTransducer.Proofs.Search.Greedy
import SpeechTransducer.Proofs.Search.Peak

/-!
A beam with a single place. On exact scores it goes the way of greedy search: what the path has
earned so far, and what normalizing takes off, is the same for all its extensions, so the token with
the largest logit is the one that stays. The searches ask for predictions at different times, but
what they keep is the prediction for the path as it is.
-/

namespace SpeechTransducer.Search

variable {σ S : Type}

/-- Networks that compute on single rows: the prediction network by a function `f`, the joiner on
what it gives by a function `j`, with an entry for each token of the vocabulary. -/
structure Network.Plain (net : Network σ S) (f : List Int → List S) (j : List S → List S → List S)
    (vocabulary : Nat) : Prop where
  vocabulary_pos : 0 < vocabulary
  vocabulary_le : vocabulary ≤ 2 ^ 63
  predict : ∀ row network, Yields (net.predict [row]) network fun out _ => out = [f row]
  join : ∀ frame row network,
    Yields (net.join frame [f row]) network fun out _ => out = [j frame (f row)]
  length : ∀ frame row, (j frame (f row)).length = vocabulary

variable {net : Network σ ℝ} {f : List Int → List ℝ} {j : List ℝ → List ℝ → List ℝ}
variable {vocabulary : Nat} {t : Int} {frame : List ℝ} {frames : List (List ℝ)} {st : State ℝ}

/-- One frame of a search that follows the token with the largest logit. -/
noncomputable def follow (net : Network σ ℝ) (f : List Int → List ℝ) (j : List ℝ → List ℝ → List ℝ)
    (t : Int) (frame : List ℝ) (st : State ℝ) : State ℝ :=
  match rowPeakIndex (j frame (f (net.context st.tokens))) with
  | some v => if isEmission v then st.emit v t else st.rest
  | none => st

noncomputable def followAll (net : Network σ ℝ) (f : List Int → List ℝ)
    (j : List ℝ → List ℝ → List ℝ) : Int → List (List ℝ) → State ℝ → State ℝ
  | _, [], st => st
  | t, frame :: frames, st => followAll net f j (t + 1) frames (follow net f j t frame st)

/-- Tokens that arrays can hold. -/
def Writable (st : State ℝ) : Prop := ∀ token ∈ st.tokens, Number.fitsWord token = true

theorem follow_eq (hnet : net.Plain f j vocabulary) (t : Int) (frame : List ℝ) (st : State ℝ) :
    ∃ v x, PeakAt (j frame (f (net.context st.tokens))) v x ∧ v < vocabulary ∧
      rowPeakIndex (j frame (f (net.context st.tokens))) = some v ∧
      follow net f j t frame st = if isEmission v then st.emit v t else st.rest := by
  have hne : j frame (f (net.context st.tokens)) ≠ [] := by
    apply List.ne_nil_of_length_pos
    rw [hnet.length]
    exact hnet.vocabulary_pos
  obtain ⟨v, x, hindex, hpeak⟩ := rowPeakIndex_peakAt hne
  refine ⟨v, x, hpeak, ?_, hindex, by rw [follow, hindex]⟩
  rw [← hnet.length frame (net.context st.tokens)]
  exact (List.getElem?_eq_some_iff.mp hpeak.get).1

theorem writable_follow (hnet : net.Plain f j vocabulary) (t : Int) (frame : List ℝ)
    (h : Writable st) : Writable (follow net f j t frame st) := by
  obtain ⟨v, x, -, hlt, -, hfollow⟩ := follow_eq hnet t frame st
  rw [hfollow]
  split
  · intro token htoken
    obtain hold | hnew := List.mem_append.mp htoken
    · exact h token hold
    · have hle := hnet.vocabulary_le
      rw [List.mem_singleton.mp hnew, Number.fitsWord, Bool.and_eq_true, decide_eq_true_iff,
        decide_eq_true_iff]
      omega
  · exact h

/-- Frames only change what a search tells of its path. -/
theorem followAll_frame (hnet : net.Plain f j vocabulary) (h : Writable st) :
    Writable (followAll net f j t frames st) ∧
      (followAll net f j t frames st).frameOffset = st.frameOffset := by
  induction frames generalizing t st with
  | nil => exact ⟨h, rfl⟩
  | cons frame frames ih =>
      obtain ⟨hwritable, hoffset⟩ := ih (t := t + 1) (writable_follow hnet t frame h)
      refine ⟨hwritable, hoffset.trans ?_⟩
      obtain ⟨v, x, -, -, -, hfollow⟩ := follow_eq hnet t frame st
      rw [hfollow]
      split <;> rfl

namespace Greedy

variable {s : Session σ ℝ}

theorem predict_plain (hnet : net.Plain f j vocabulary) {tokens : List Int}
    (h : ∀ token ∈ tokens, Number.fitsWord token = true) (network : σ) :
    Yields (predict net tokens) network fun rows _ => rows = [f (net.context tokens)] :=
  .bind_answered (Beam.contexts_singleton h) (hnet.predict _ network)

theorem decodeFrame_plain (hnet : net.Plain f j vocabulary) (h : Writable s.state) :
    Yields (decodeFrame net t frame [f (net.context s.state.tokens)]) s fun rows s' =>
      s'.state = follow net f j t frame s.state ∧
        rows = [f (net.context (follow net f j t frame s.state).tokens)] := by
  obtain ⟨v, x, -, -, hindex, hfollow⟩ := follow_eq hnet t frame s.state
  have hwritable := writable_follow hnet t frame h
  refine .bind_ask (hnet.join frame _ s.network) ?_
  rintro logits network rfl
  have hbest : bestToken [j frame (f (net.context s.state.tokens))] = .ok (v : Int) := by
    rw [bestToken, hindex]
  refine .bind_answered hbest ?_
  rw [hfollow] at hwritable ⊢
  split
  · rename_i hemission
    rw [if_pos hemission] at hwritable
    refine .bind_change (.bind_look ?_)
    refine .ask (predict_plain hnet hwritable network) ?_
    rintro rows network' rfl
    exact ⟨rfl, rfl⟩
  · exact .bind_change (.pure ⟨rfl, rfl⟩)

theorem decodeFrames_plain (hnet : net.Plain f j vocabulary) (h : Writable s.state) :
    Yields (decodeFrames net t frames [f (net.context s.state.tokens)]) s fun rows s' =>
      s'.state = followAll net f j t frames s.state ∧
        rows = [f (net.context (followAll net f j t frames s.state).tokens)] := by
  induction frames generalizing t s with
  | nil => exact .pure ⟨rfl, rfl⟩
  | cons frame frames ih =>
      refine .bind (decodeFrame_plain hnet h) ?_
      rintro rows s' ⟨hs', rfl⟩
      have hnext := ih (t := t + 1) (s := s') (hs' ▸ writable_follow hnet t frame h)
      rw [hs'] at hnext
      exact hnext

end Greedy

namespace Beam

variable {s : Session σ ℝ} {path : Hypothesis ℝ} {rule : MergeRule} {isFirst : Bool}

/-- A path with what a search tells of it. -/
structure Tells (path : Hypothesis ℝ) (st : State ℝ) : Prop where
  tokens : path.tokens = st.tokens
  timestamps : path.timestamps = st.timestamps
  trailingBlanks : path.trailingBlanks = st.trailingBlanks

theorem extend_tells (h : Tells path st) (token : Int) (score : ℝ) :
    ∃ path', extend none t path token score = .ok path' ∧
      Tells path' (if isEmission token then st.emit token t else st.rest) := by
  rw [extend]
  split
  · refine ⟨_, rfl, ?_, ?_, rfl⟩
    · exact congrArg (· ++ [token]) h.tokens
    · exact congrArg (· ++ [t]) h.timestamps
  · exact ⟨_, rfl, h.tokens, h.timestamps, congrArg (· + 1) h.trailingBlanks⟩

/-- All extensions of a path score what their logits are and a constant. -/
theorem extensionScores_eq_add (path : Hypothesis ℝ) {logits : List ℝ} (hne : logits ≠ []) :
    ∃ d, extensionScores path logits = .ok (logits.map (· + d)) := by
  refine ⟨path.score - Real.log (logits.map Real.exp).sum, ?_⟩
  rw [extensionScores, logSoftmax_eq_some hne]
  simp only [LogScale.single, List.map_map, Function.comp_def]
  congr 2
  funext x
  ring

theorem following_plain (rule : MergeRule) (t : Int) {logits : List ℝ} {v : Nat} {x : ℝ}
    (hpeak : PeakAt logits v x) (h : Tells path st) :
    ∃ path', following ⟨1, rule⟩ none t [path] [logits] = .ok { rule, entries := [path'] } ∧
      Tells path' (if isEmission v then st.emit v t else st.rest) := by
  have hne : logits ≠ [] := by
    rintro rfl
    cases hpeak.get
  obtain ⟨d, hscores⟩ := extensionScores_eq_add path hne
  obtain ⟨path', hextend, htells⟩ := extend_tells (t := t) h v (x + d)
  have hrows : scoreRows [path] [logits] = .ok [logits.map (· + d)] := by
    rw [scoreRows_of_length rfl, List.zip_cons_cons, List.zip_nil_right, List.mapM_cons,
      List.mapM_nil, hscores]
    rfl
  refine ⟨path', ?_, htells⟩
  rw [following, hrows]
  change successors ⟨1, rule⟩ none t [path] (best 1 (candidates [logits.map (· + d)])) = _
  rw [best_one (hpeak.map_add d), successors, List.foldlM_cons, successors.addSuccessor]
  dsimp only [List.getElem?_cons_zero]
  rw [hextend]
  rfl

theorem predictAll_plain (hnet : net.Plain f j vocabulary) (h : Tells path st)
    (hwritable : Writable st) (network : σ) :
    Yields (predict.predictAll net [path]) network
      fun rows _ => rows = [f (net.context st.tokens)] := by
  have hcontexts : net.contexts [path.tokens] = .ok [net.context st.tokens] := by
    rw [h.tokens]
    exact contexts_singleton hwritable
  refine .bind_answered hcontexts ?_
  rw [Network.predictRows]
  split
  · exact hnet.predict _ network
  · refine .bind (hnet.predict _ network) ?_
    rintro rows network' rfl
    exact .pure rfl

/-- Rows that may stand for the prediction at the first frame of a chunk. -/
def Kept (net : Network σ ℝ) (f : List Int → List ℝ) (st : State ℝ)
    (prediction : Option (List (List ℝ))) : Prop :=
  ∀ rows ∈ prediction, rows = [f (net.context st.tokens)]

theorem decodeFrame_plain (hnet : net.Plain f j vocabulary) (h : Tells path st)
    (hwritable : Writable st) (hkept : isFirst = true → Kept net f st s.state.prediction) :
    Gives (decodeFrame net ⟨1, rule⟩ none isFirst t frame [path]) s
      (following ⟨1, rule⟩ none t [path] [j frame (f (net.context st.tokens))]) := by
  have hpredict : Gives (predict net isFirst [path]) s (.ok [f (net.context st.tokens)]) := by
    refine predict_leaves (fun rows hrows _ hfirst _ _ => ?_) fun network => ?_
    · rw [hkept hfirst rows hrows]
    · refine (predictAll_plain hnet h hwritable network).leaves.mono ?_ fun _ _ hno => hno
      rintro rows _ rfl
      rfl
  refine hpredict.bind (y := fun _ => following _ none t [path] _) fun rows s' hrows => ?_
  obtain rfl := Except.ok.inj hrows
  refine .bind_ask (hnet.join frame _ s'.network) fun network => ?_
  exact Gives.bind (.answered _) fun scores _ _ => .answered _

/-- The frames of a chunk lead a single path where they lead greedy search. -/
theorem decodeFrames_plain (hnet : net.Plain f j vocabulary) (rule : MergeRule) (t : Int)
    (frames : List (List ℝ)) (h : Tells path st) (hwritable : Writable st) :
    ∃ path', Tells path' (followAll net f j t frames st) ∧
      ∀ isFirst (s : Session σ ℝ), (isFirst = true → Kept net f st s.state.prediction) →
        Gives (decodeFrames net ⟨1, rule⟩ none isFirst t frames { rule, entries := [path] }) s
          (.ok { rule, entries := [path'] }) := by
  induction frames generalizing t path st with
  | nil => exact ⟨path, h, fun _ _ _ => .pure _⟩
  | cons frame frames ih =>
      obtain ⟨v, x, hpeak, -, -, hfollow⟩ := follow_eq hnet t frame st
      obtain ⟨path₁, hfollowing, htells⟩ := following_plain rule t hpeak h
      rw [← hfollow] at htells
      obtain ⟨path', htells', hrest⟩ := ih (t + 1) htells (writable_follow hnet t frame hwritable)
      refine ⟨path', htells', fun isFirst s hkept => ?_⟩
      -- Only at the first frame may a row that was kept take the place of the prediction.
      have htop : ({ rule, entries := [path] } : Hypotheses ℝ).top
          (⟨1, rule⟩ : Settings).width = [path] := top_singleton le_rfl
      have hframe : Gives (decodeFrame net ⟨1, rule⟩ none isFirst t frame [path]) s
          (.ok { rule, entries := [path₁] }) :=
        hfollowing ▸ decodeFrame_plain hnet h hwritable hkept
      have hframes : Gives (decodeFrame net ⟨1, rule⟩ none isFirst t frame [path] >>= fun hs =>
            decodeFrames net ⟨1, rule⟩ none false (t + 1) frames hs) s
          (.ok { rule, entries := [path₁] } >>= fun _ : Hypotheses ℝ =>
            .ok { rule, entries := [path'] }) := by
        refine hframe.bind fun hs s' hhs => ?_
        obtain rfl := Except.ok.inj hhs
        exact hrest false s' (by simp)
      rw [decodeFrames, htop]
      exact hframes

end Beam

/-- What the two searches tell between two chunks is the same. Each of them has nothing left over
from before but the prediction for its path. -/
structure Alike (net : Network σ ℝ) (f : List Int → List ℝ) (rule : MergeRule)
    (greedy beam : State ℝ) : Prop where
  tokens : beam.tokens = greedy.tokens
  timestamps : beam.timestamps = greedy.timestamps
  trailingBlanks : beam.trailingBlanks = greedy.trailingBlanks
  frameOffset : beam.frameOffset = greedy.frameOffset
  path : ∃ path, beam.hyps = some { rule, entries := [path] } ∧ Beam.Tells path greedy
  writable : Writable greedy
  greedyKept : Beam.Kept net f greedy greedy.prediction
  beamKept : Beam.Kept net f greedy beam.prediction

variable {rule : MergeRule} {out : Argument ℝ} {s : Session σ ℝ}

/-- The state after a chunk of frames, with the prediction for the path. -/
noncomputable def concluded (net : Network σ ℝ) (f : List Int → List ℝ)
    (j : List ℝ → List ℝ → List ℝ) (frames : List (List ℝ)) (st : State ℝ) : State ℝ :=
  let reached := followAll net f j st.frameOffset frames st
  { reached with
    frameOffset := st.frameOffset + frames.length
    prediction := some [f (net.context reached.tokens)] }

theorem Greedy.decode_plain (hnet : net.Plain f j vocabulary)
    (hframes : encoderFrames out = .ok frames) (hwritable : Writable s.state)
    (hkept : Beam.Kept net f s.state s.state.prediction) :
    Yields (Greedy.decode net out) s fun _ s' => s'.state = concluded net f j frames s.state := by
  refine yields_iff_leaves.mpr (decode_leaves (Q := fun _ => False) hframes hkept
    (fun _ => (predict_plain hnet hwritable s.network).leaves) (fun _ _ hno => hno) ?_)
  rintro rows network rfl
  refine (decodeFrames_plain (s := { s with network }) hnet hwritable).leaves.mono ?_
    fun _ _ hno => hno
  rintro rows s' ⟨hs', rfl⟩
  rw [hs', (followAll_frame hnet hwritable).2]
  rfl

theorem Beam.decode_plain (hnet : net.Plain f j vocabulary)
    (hframes : encoderFrames out = .ok frames) (hne : frames ≠ []) {path : Hypothesis ℝ}
    (hhyps : s.state.hyps = some { rule, entries := [path] }) (h : Tells path st)
    (hwritable : Writable st) (hkept : Kept net f st s.state.prediction) :
    Yields (Beam.decode net ⟨1, rule⟩ none out) s fun _ s' =>
      ∃ path', Tells path' (followAll net f j s.state.frameOffset frames st) ∧ s'.state =
        { tokens := path'.tokens
          timestamps := path'.timestamps
          frameOffset := s.state.frameOffset + frames.length
          trailingBlanks := path'.trailingBlanks
          hyps := some { rule, entries := [path'] }
          prediction := some [f (net.context path'.tokens)] } := by
  obtain ⟨path', htells, hrun⟩ :=
    decodeFrames_plain hnet rule s.state.frameOffset frames h hwritable
  have hbest : ({ rule, entries := [path'] } : Hypotheses ℝ).best? = some path' :=
    best?_of_top_eq (top_singleton le_rfl)
  have hend : Leaves (decodeFrames net ⟨1, rule⟩ none true s.state.frameOffset frames
      { rule, entries := [path] }) s
      (fun hs' s' => hs' = { rule, entries := [path'] } ∧ Consumed s.state s'.state)
      fun _ s' => False ∧ Consumed s.state s'.state := by
    refine (hrun true s fun _ => hkept).mono ?_ ?_
    · exact fun hs' s' hhs => ⟨(Except.ok.inj hhs.1).symm, hhs.2⟩
    · rintro e s' ⟨hno, -⟩
      cases hno
  have hlast (hs' : Hypotheses ℝ) (path₁ : Hypothesis ℝ) (network : σ)
      (hhs' : hs' = { rule, entries := [path'] }) (hpath : hs'.best? = some path₁) :
      Leaves (predict.predictAll net [path₁]) network
        (fun rows _ => rows = [f (net.context path₁.tokens)]) fun _ _ => False := by
    subst hhs'
    obtain rfl := Option.some.inj (hbest.symm.trans hpath)
    rw [htells.tokens]
    exact (predictAll_plain hnet htells (followAll_frame hnet hwritable).1 network).leaves
  have hdecode := decode_leaves (Q := fun _ => False) hframes hne hhyps hend hlast
  refine yields_iff_leaves.mpr (hdecode.mono ?_ fun _ _ hno => hno.1)
  rintro _ s' ⟨_, rfl, ⟨hnone, -⟩ | ⟨path₁, rows, hpath, rfl, hstate⟩⟩
  · rw [hbest] at hnone
    cases hnone
  · obtain rfl := Option.some.inj (hbest.symm.trans hpath)
    exact ⟨path', htells, hstate⟩

/-- A chunk leaves the searches alike. -/
theorem Alike.decode (hnet : net.Plain f j vocabulary) (hframes : encoderFrames out = .ok frames)
    {narrow : Session σ ℝ} (h : Alike net f rule s.state narrow.state) :
    Yields (Greedy.decode net out) s fun _ s' =>
      Yields (Beam.decode net ⟨1, rule⟩ none out) narrow fun _ narrow' =>
        Alike net f rule s'.state narrow'.state := by
  obtain ⟨path, hhyps, htells⟩ := h.path
  refine (Greedy.decode_plain hnet hframes h.writable h.greedyKept).mono fun _ s' hs' => ?_
  have hwritable : Writable s'.state := by
    rw [hs']
    exact (followAll_frame hnet h.writable).1
  have hkept : Beam.Kept net f s'.state s'.state.prediction := by
    rw [hs']
    exact fun rows hrows => (Option.some.inj hrows).symm
  by_cases hnil : frames = []
  · -- Greedy search asks for its prediction even so, and beam search does nothing at all.
    subst hnil
    have hsame : s'.state = { s.state with prediction := s'.state.prediction } := by
      rw [hs']
      simp [concluded, followAll]
    refine ⟨(), narrow, Beam.decode_empty hframes hhyps, ?_⟩
    rw [hsame] at hwritable hkept ⊢
    have htold : Beam.Tells path { s.state with prediction := s'.state.prediction } :=
      ⟨htells.tokens, htells.timestamps, htells.trailingBlanks⟩
    exact ⟨h.tokens, h.timestamps, h.trailingBlanks, h.frameOffset, ⟨path, hhyps, htold⟩,
      hwritable, hkept, h.beamKept⟩
  · refine (Beam.decode_plain hnet hframes hnil hhyps htells h.writable h.beamKept).mono ?_
    rintro _ narrow' ⟨path', htells', hstate⟩
    rw [h.frameOffset] at htells' hstate
    have htold : Beam.Tells path' s'.state := by
      rw [hs']
      exact ⟨htells'.tokens, htells'.timestamps, htells'.trailingBlanks⟩
    rw [hstate]
    refine ⟨htold.tokens, htold.timestamps, htold.trailingBlanks, ?_, ⟨path', rfl, htold⟩,
      hwritable, hkept, fun rows hrows => ?_⟩
    · rw [hs']
      rfl
    · rw [← htold.tokens]
      exact (Option.some.inj hrows).symm

/-- Decodes chunks one after the other. -/
def Greedy.decodeChunks [BEq S] [LT S] [DecidableLT S] (net : Network σ S) :
    List (Argument S) → Run σ S Unit
  | [] => pure ()
  | out :: rest => do
    Greedy.decode net out
    decodeChunks net rest

theorem Alike.decodeChunks (hnet : net.Plain f j vocabulary) {outs : List (Argument ℝ)}
    {chunks : List (List (List ℝ))} (houts : Beam.Chunks outs chunks) {narrow : Session σ ℝ}
    (h : Alike net f rule s.state narrow.state) :
    Yields (Greedy.decodeChunks net outs) s fun _ s' =>
      Yields (Beam.decodeChunks net ⟨1, rule⟩ none outs) narrow fun _ narrow' =>
        Alike net f rule s'.state narrow'.state := by
  induction houts generalizing s narrow with
  | nil => exact .pure (.pure h)
  | cons hframes _ ih =>
      refine .bind (h.decode hnet hframes) ?_
      rintro _ s₁ ⟨_, narrow₁, hbeam, h₁⟩
      refine (ih h₁).mono fun _ s' hrest => ?_
      have hfirst : Yields (Beam.decode net ⟨1, rule⟩ none _) narrow fun _ x => x = narrow₁ :=
        ⟨_, narrow₁, hbeam, rfl⟩
      refine .bind hfirst ?_
      rintro _ _ rfl
      exact hrest

theorem alike_start (rule : MergeRule) :
    Alike net f rule (Greedy.start net) (Beam.start net ⟨1, rule⟩) where
  tokens := rfl
  timestamps := rfl
  trailingBlanks := rfl
  frameOffset := rfl
  path := ⟨_, rfl, rfl, rfl, rfl⟩
  writable := by
    intro token htoken
    rw [List.eq_of_mem_replicate htoken]
    rfl
  greedyKept := fun rows hrows => by cases hrows
  beamKept := fun rows hrows => by cases hrows

/-- On exact scores a beam with a single place tells the same as greedy search after any chunks,
whichever rule its paths would merge by. -/
theorem decodeChunks_narrow (hnet : net.Plain f j vocabulary) (rule : MergeRule)
    {outs : List (Argument ℝ)} {chunks : List (List (List ℝ))} (houts : Beam.Chunks outs chunks)
    (network network' : σ) :
    ∃ greedy beam, Greedy.decodeChunks net outs ⟨network, Greedy.start net⟩ = .ok () greedy ∧
      Beam.decodeChunks net ⟨1, rule⟩ none outs ⟨network', Beam.start net ⟨1, rule⟩⟩ =
        .ok () beam ∧
      beam.state.tokens = greedy.state.tokens ∧
      beam.state.timestamps = greedy.state.timestamps ∧
      beam.state.trailingBlanks = greedy.state.trailingBlanks ∧
      beam.state.frameOffset = greedy.state.frameOffset := by
  have hrun : Yields (Greedy.decodeChunks net outs) ⟨network, Greedy.start net⟩ fun _ s' =>
      Yields (Beam.decodeChunks net ⟨1, rule⟩ none outs) ⟨network', Beam.start net ⟨1, rule⟩⟩
        fun _ narrow' => Alike net f rule s'.state narrow'.state :=
    Alike.decodeChunks hnet houts (alike_start rule)
  obtain ⟨_, greedy, hgreedy, _, beam, hbeam, h⟩ := hrun
  exact ⟨greedy, beam, hgreedy, hbeam, h.tokens, h.timestamps, h.trailingBlanks, h.frameOffset⟩

theorem decodeChunks_narrow_ties :
    let net := addingNetwork (fun n : Int => (n : ℝ)) 4
    let outs : List (Argument ℝ) :=
      [.array { shape := [1, 0, 4], data := #[] },
        .array { shape := [1, 1, 4], data := #[0, 3, 0, 3] },
        .array { shape := [1, 2, 4], data := #[2, 2, 0, 1, 0, 0, 4, 4] }]
    ∃ greedy beam, Greedy.decodeChunks net outs ⟨(), Greedy.start net⟩ = .ok () greedy ∧
      Beam.decodeChunks net ⟨1, .best⟩ none outs ⟨(), Beam.start net ⟨1, .best⟩⟩ = .ok () beam ∧
      beam.state.tokens = greedy.state.tokens ∧
      beam.state.timestamps = greedy.state.timestamps ∧
      beam.state.trailingBlanks = greedy.state.trailingBlanks ∧
      beam.state.frameOffset = greedy.state.frameOffset := by
  intro net outs
  have houts : Beam.Chunks outs [[], [[0, 3, 0, 3]], [[2, 2, 0, 1], [0, 0, 4, 4]]] :=
    .cons rfl (.cons rfl (.cons rfl .nil))
  have hnet : net.Plain (·.map fun n : Int => (n : ℝ)) (addedRow 4) 4 := {
    vocabulary_pos := by decide
    vocabulary_le := by decide
    predict := fun _ _ => ⟨_, _, rfl, rfl⟩
    join := fun _ _ _ => ⟨_, _, rfl, rfl⟩
    length := fun _ _ => by simp [addedRow] }
  exact decodeChunks_narrow hnet .best houts () ()

end SpeechTransducer.Search
