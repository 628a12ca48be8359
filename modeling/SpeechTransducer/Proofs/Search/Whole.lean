import SpeechTransducer.Proofs.Search.Computing

/-!
Beam search on all frames at once, with the prediction of every path computed anew at every frame.
A search that goes through the same frames chunk by chunk, and keeps the prediction of its best path
from one chunk to the next, ends in the same state: rows that were kept are used only where they are
what the prediction network would give. The exception are rows that the search starts with, which
stand for the prediction at the very first frame.
-/

namespace SpeechTransducer.Search

variable {σ S : Type}

namespace Beam

/-- The state that a search ends in, or the reason for which it fails. -/
def reached : EStateM.Result Fault (Session σ S) Unit → Except Fault (State S)
  | .ok _ s => .ok s.state
  | .error e _ => .error e

namespace Whole

variable [Zero S] [Add S] [Sub S] [BEq S] [LT S] [DecidableLT S] [LogScale S]

/-- The paths that follow the ranked ones at a frame. -/
def step (net : Network σ S) (f : List Int → List S) (g : List S → List (List S) → List (List S))
    (b : Settings) (graph : Option (Hotword.Graph S)) (kept : Option (List (List S))) (t : Int)
    (frame : List S) (paths : List (Hypothesis S)) : Except Fault (Hypotheses S) := do
  let rows ← predictionsOr net f kept paths
  following b graph t paths (g frame rows)

/-- The paths after frames, from the one with number `t` on. At the first of them other prediction
rows may stand for those of the paths. -/
def follow (net : Network σ S) (f : List Int → List S)
    (g : List S → List (List S) → List (List S)) (b : Settings)
    (graph : Option (Hotword.Graph S)) :
    Option (List (List S)) → Int → List (List S) → Hypotheses S → Except Fault (Hypotheses S)
  | _, _, [], hs => .ok hs
  | kept, t, frame :: frames, hs => do
    let hs ← step net f g b graph kept t frame (hs.top b.width)
    follow net f g b graph none (t + 1) frames hs

/-- The state after so many frames, given the paths that are left. -/
def conclude (net : Network σ S) (f : List Int → List S) (count : Int) (hs : Hypotheses S) :
    Except Fault (State S) := do
  let h ← hs.best
  let rows ← predictions net f [h]
  return {
    tokens := h.tokens
    timestamps := h.timestamps
    frameOffset := count
    trailingBlanks := h.trailingBlanks
    hyps := some hs
    prediction := some rows }

/-- Decodes frames in one loop, with rows that may stand for the prediction at the first of them. -/
def decode (net : Network σ S) (f : List Int → List S)
    (g : List S → List (List S) → List (List S)) (b : Settings)
    (graph : Option (Hotword.Graph S)) (kept : Option (List (List S))) (frames : List (List S))
    (st : State S) : Except Fault (State S) :=
  match st.hyps with
  | none => .error .searchWithoutHypotheses
  | some hs =>
    if frames.isEmpty then .ok st
    else do
      let hs ← follow net f g b graph kept st.frameOffset frames hs
      conclude net f (st.frameOffset + frames.length) hs

end Whole

section

variable [Zero S] [Add S] [Sub S] [BEq S] [LT S] [DecidableLT S] [LogScale S]
variable {net : Network σ S} {f : List Int → List S} {g : List S → List (List S) → List (List S)}
variable {b : Settings} {graph : Option (Hotword.Graph S)} {kept : Option (List (List S))}
variable {frames more : List (List S)} {hs : Hypotheses S} {t : Int}

theorem follow_append (hfresh : frames ≠ [] ∨ kept = none) :
    Whole.follow net f g b graph kept t (frames ++ more) hs =
      Whole.follow net f g b graph kept t frames hs >>= fun hs' =>
        Whole.follow net f g b graph none (t + frames.length) more hs' := by
  induction frames generalizing kept t hs with
  | nil =>
      obtain rfl := hfresh.resolve_left (not_not_intro rfl)
      simp [Whole.follow, bind, Except.bind]
  | cons frame frames ih =>
      rw [List.cons_append, Whole.follow, Whole.follow]
      cases Whole.step net f g b graph kept t frame (hs.top b.width) with
      | error e => rfl
      | ok hs' =>
          have hcount : t + ((frame :: frames).length : Int) = t + 1 + frames.length := by
            rw [List.length_cons]
            omega
          rw [hcount]
          exact ih (.inr rfl)

end

/-- Paths, at least one, with tokens that arrays can hold. -/
structure Fitting (hs : Hypotheses S) : Prop where
  ne_nil : hs.entries ≠ []
  tokens : ∀ h ∈ hs.entries, ∀ token ∈ h.tokens, Number.fitsWord token = true

variable {net : Network σ S} {f : List Int → List S} {g : List S → List (List S) → List (List S)}
variable {vocabulary : Nat} {paths : List (Hypothesis S)}

theorem fitting_start [Zero S] {rule : MergeRule} (state : Option Int) : Fitting
    ({ rule
       entries :=
        [{ tokens := List.replicate net.contextSize.toNat blankToken
           score := 0
           contextState := state }] } : Hypotheses S) := by
  refine ⟨List.cons_ne_nil _ _, ?_⟩
  intro h hh token htoken
  obtain rfl := List.mem_singleton.mp hh
  rw [(List.mem_replicate.mp htoken).2]
  rfl

section

variable [BEq S] [LT S] [DecidableLT S] {hs : Hypotheses S} {b : Settings}

/-- What holds of a stream's search between two chunks: some rows may stand for the prediction of
its paths at the next frame. -/
structure Resumable (net : Network σ S) (f : List Int → List S) (b : Settings)
    (kept : Option (List (List S))) (st : State S) : Prop where
  paths : ∃ hs, st.hyps = some hs ∧ Fitting hs ∧
    (∀ rows ∈ kept, rows.length = (hs.top b.width).length) ∧
    ∀ network, Gives (predict net true (hs.top b.width)) ⟨network, st⟩
      (predictionsOr net f kept (hs.top b.width))

theorem conclude_inv {count : Int} {st : State S}
    (hend : Whole.conclude net f count hs = .ok st) :
    st.hyps = some hs ∧ st.frameOffset = count ∧
      ∃ h rows, hs.best? = some h ∧ predictions net f [h] = .ok rows ∧
        st.prediction = some rows := by
  obtain ⟨h, hbest, hend⟩ := bind_inv hend
  obtain ⟨rows, hrows, hend⟩ := bind_inv hend
  obtain rfl := Except.ok.inj hend
  rw [Hypotheses.best] at hbest
  split at hbest
  · rename_i h' hsome
    obtain rfl := Except.ok.inj hbest
    exact ⟨rfl, rfl, _, rows, hsome, hrows, rfl⟩
  · cases hbest

/-- The rows that a chunk keeps are those of its best path: it is that path, if there is only one,
that they are used for. -/
theorem resumable_conclude (hnet : net.Computing f g vocabulary) (hfits : Fitting hs)
    {count : Int} {st : State S} (hend : Whole.conclude net f count hs = .ok st) :
    Resumable net f b none st := by
  obtain ⟨hhyps, -, h, rows, hbest, hrows, hkept⟩ := conclude_inv hend
  refine ⟨hs, hhyps, hfits, by simp, fun network => predict_gives hnet ?_⟩
  intro kept hkept' path _ honly
  obtain rfl := Option.some.inj (hkept.symm.trans hkept')
  obtain rfl := Option.some.inj (hbest.symm.trans (best?_of_top_eq honly))
  exact hrows

end

variable [Zero S] [Add S] [Sub S] [BEq S] [LT S] [DecidableLT S] [LogScale S]
variable {b : Settings} {graph : Option (Hotword.Graph S)} {kept : Option (List (List S))}
variable {hs hs' : Hypotheses S} {t : Int} {s : Session σ S}

theorem step_fitting (hnet : net.Computing f g vocabulary) (hwidth : 1 ≤ b.width)
    (hfits : Fitting hs) (hkept : ∀ rows ∈ kept, rows.length = (hs.top b.width).length)
    {frame : List S}
    (hstep : Whole.step net f g b graph kept t frame (hs.top b.width) = .ok hs') :
    Fitting hs' := by
  obtain ⟨rows, hrows, hfollowing⟩ := bind_inv hstep
  have hlen : rows.length = (hs.top b.width).length := by
    cases kept with
    | none => rw [predictions_inv hrows, List.length_map]
    | some given => exact Except.ok.inj hrows ▸ hkept given rfl
  obtain ⟨hall, hshape⟩ := hnet.shape frame rows
  refine ⟨following_ne_nil hfollowing hwidth (top_ne_nil hfits.ne_nil (by omega))
    (hall.trans hlen), ?_⟩
  obtain ⟨scores, hscores, hsuccessors⟩ := following_inv hfollowing
  refine forall_successors (P := fun h => ∀ token ∈ h.tokens, Number.fitsWord token = true)
    hsuccessors ?_ fun old _ _ hold _ => hold
  intro path hpath c hc h hextend
  have hold := hfits.tokens path (mem_of_mem_top hpath)
  obtain ⟨-, score, state, rfl, -⟩ | ⟨-, rfl⟩ := extend_inv hextend
  · have hscores' : ∀ row ∈ scores, row.length = vocabulary := by
      intro row hrow
      obtain ⟨-, given, hgiven, hsame⟩ := (scoreRows_inv hscores).2 row hrow
      exact hsame.trans (hshape given hgiven)
    have htoken := token_lt_of_mem_candidates hscores' (mem_of_mem_best hc)
    have hvocabulary := hnet.vocabulary_le
    intro token hmem
    obtain hin | hnew := List.mem_append.mp hmem
    · exact hold token hin
    · rw [List.mem_singleton.mp hnew, Number.fitsWord, Bool.and_eq_true, decide_eq_true_iff,
        decide_eq_true_iff]
      omega
  · exact hold

theorem decodeFrame_gives (hnet : net.Computing f g vocabulary) {isFirst : Bool} (frame : List S)
    (hpredict : Gives (predict net isFirst paths) s (predictionsOr net f kept paths)) :
    Gives (decodeFrame net b graph isFirst t frame paths) s
      (Whole.step net f g b graph kept t frame paths) := by
  refine hpredict.bind fun rows s' _ => ?_
  refine .bind_ask (hnet.join frame rows s'.network) fun network => ?_
  exact Gives.bind (.answered _) fun scores _ _ => .answered _

theorem follow_fitting (hnet : net.Computing f g vocabulary) (hwidth : 1 ≤ b.width)
    {frames : List (List S)} (hfits : Fitting hs)
    (hkept : ∀ rows ∈ kept, rows.length = (hs.top b.width).length)
    (hend : Whole.follow net f g b graph kept t frames hs = .ok hs') : Fitting hs' := by
  induction frames generalizing t hs kept with
  | nil => exact Except.ok.inj hend ▸ hfits
  | cons frame frames ih =>
      obtain ⟨hs₁, hstep, hend⟩ := bind_inv hend
      exact ih (step_fitting hnet hwidth hfits hkept hstep) (by simp) hend

/-- A chunk's frames lead where the loop over all frames leads, if the rows for the first of them
are the same. -/
theorem decodeFrames_gives (hnet : net.Computing f g vocabulary) (hwidth : 1 ≤ b.width)
    {isFirst : Bool} (frames : List (List S)) (hfits : Fitting hs)
    (hkept : ∀ rows ∈ kept, rows.length = (hs.top b.width).length)
    (hpredict : Gives (predict net isFirst (hs.top b.width)) s
      (predictionsOr net f kept (hs.top b.width))) :
    Gives (decodeFrames net b graph isFirst t frames hs) s
      (Whole.follow net f g b graph kept t frames hs) := by
  induction frames generalizing isFirst t hs s kept with
  | nil => exact .pure hs
  | cons frame frames ih =>
      rw [decodeFrames, Whole.follow]
      split
      · rename_i hnone
        exact absurd hnone (top_ne_nil hfits.ne_nil (by omega))
      · refine (decodeFrame_gives hnet frame hpredict).bind fun hs' s' hstep => ?_
        have hpredict' : Gives (predict net false (hs'.top b.width)) s'
            (predictionsOr net f none (hs'.top b.width)) := predict_gives hnet (by simp)
        exact ih (step_fitting hnet hwidth hfits hkept hstep) (by simp) hpredict'

/-- A chunk with frames leads to the conclusion from them. -/
theorem decode_computing (hnet : net.Computing f g vocabulary) (hwidth : 1 ≤ b.width)
    {out : Argument S} {frames : List (List S)} (hframes : encoderFrames out = .ok frames)
    (hne : frames ≠ []) (hhyps : s.state.hyps = some hs)
    (hresumable : Resumable net f b kept s.state) :
    Leaves (decode net b graph out) s
      (fun _ s' => ∃ hs',
        Whole.follow net f g b graph kept s.state.frameOffset frames hs = .ok hs' ∧
        Whole.conclude net f (s.state.frameOffset + frames.length) hs' = .ok s'.state ∧
        Resumable net f b none s'.state)
      fun e _ => Whole.follow net f g b graph kept s.state.frameOffset frames hs = .error e := by
  obtain ⟨hs₀, hhs₀, hfits, hkept, hpredict⟩ := hresumable.paths
  obtain rfl := Option.some.inj (hhs₀.symm.trans hhyps)
  have hrun : Gives (decodeFrames net b graph true s.state.frameOffset frames hs₀) s
      (Whole.follow net f g b graph kept s.state.frameOffset frames hs₀) :=
    decodeFrames_gives hnet hwidth frames hfits hkept (hpredict s.network)
  have hend (hs' : Hypotheses S)
      (hfollow : Whole.follow net f g b graph kept s.state.frameOffset frames hs₀ = .ok hs') :
      Fitting hs' := follow_fitting hnet hwidth hfits hkept hfollow
  have hlast (hs' : Hypotheses S) (h : Hypothesis S) (network : σ)
      (hfollow : Whole.follow net f g b graph kept s.state.frameOffset frames hs₀ = .ok hs')
      (hbest : hs'.best? = some h) :
      Leaves (predict.predictAll net [h]) network (fun rows _ => predictions net f [h] = .ok rows)
        fun e _ => Whole.follow net f g b graph kept s.state.frameOffset frames hs₀ = .error e := by
    refine (predictAll_computing hnet [h] network).mono (fun _ _ hrows => hrows) fun e _ he => ?_
    have htokens := (hend hs' hfollow).tokens h (mem_of_best? hbest)
    obtain ⟨rows, hrows⟩ : ∃ rows, predictions net f [h] = .ok rows :=
      predictions_singleton htokens
    rw [hrows] at he
    cases he
  refine (decode_leaves hframes hne hhyps hrun hlast).mono ?_ fun _ _ h => h.1
  rintro _ s' ⟨hs', hfollow, ⟨hnone, -⟩ | ⟨h, rows, hbest, hrows, hstate⟩⟩
  · obtain ⟨h, hsome⟩ := exists_best (hend hs' hfollow).ne_nil
    rw [hnone] at hsome
    cases hsome
  · have hconclude : Whole.conclude net f (s.state.frameOffset + frames.length) hs' =
        .ok s'.state := by
      rw [Whole.conclude, Hypotheses.best, hbest]
      simp only [bind, Except.bind, hrows, hstate]
      rfl
    exact ⟨hs', hfollow, hconclude, resumable_conclude hnet (hend hs' hfollow) hconclude⟩

/-- What a chunk concludes with is where the loop goes on from. -/
theorem decode_conclude {frames : List (List S)}
    (hend : Whole.conclude net f t hs = .ok s.state) :
    Whole.decode net f g b graph none frames s.state =
      Whole.follow net f g b graph none t frames hs >>=
        Whole.conclude net f (t + frames.length) := by
  obtain ⟨hhyps, hoffset, -⟩ := conclude_inv hend
  rw [Whole.decode, hhyps, hoffset]
  cases frames with
  | nil =>
      simp only [List.isEmpty_nil, if_true, Whole.follow, List.length_nil, Int.natCast_zero,
        Int.add_zero]
      exact hend.symm
  | cons frame frames => rfl

/-- Chunk after chunk leads where one loop over all frames leads. -/
theorem reached_decodeChunks (hnet : net.Computing f g vocabulary) (hwidth : 1 ≤ b.width)
    {outs : List (Argument S)} {chunks : List (List (List S))} (houts : Chunks outs chunks)
    (hresumable : Resumable net f b kept s.state) :
    reached (decodeChunks net b graph outs s) =
      Whole.decode net f g b graph kept chunks.flatten s.state := by
  induction houts generalizing s kept with
  | nil =>
      obtain ⟨hs, hhyps, -⟩ := hresumable.paths
      rw [List.flatten_nil, Whole.decode, hhyps]
      rfl
  | @cons out frames outs chunks hframes _ ih =>
      obtain ⟨hs, hhyps, -⟩ := hresumable.paths
      have hbind : decodeChunks net b graph (out :: outs) s =
          EStateM.bind (decode net b graph out) (fun _ => decodeChunks net b graph outs) s := rfl
      rw [hbind, EStateM.bind, List.flatten_cons]
      by_cases hnil : frames = []
      · subst hnil
        rw [decode_empty hframes hhyps]
        exact ih hresumable
      · have hfull : (frames ++ chunks.flatten).isEmpty = false := by simp [hnil]
        have hleaves : Leaves (decode net b graph out) s _ _ :=
          decode_computing hnet hwidth hframes hnil hhyps hresumable
        rw [Whole.decode, hhyps]
        simp only [hfull, Bool.false_eq_true, if_false, follow_append (.inl hnil)]
        cases hdecode : decode net b graph out s with
        | error e s' =>
            rw [hleaves.of_error hdecode]
            rfl
        | ok u s' =>
            obtain ⟨hs', hfollow, hconclude, hresumable'⟩ := hleaves.of_ok hdecode
            have hcount : s.state.frameOffset + (frames ++ chunks.flatten).length =
                s.state.frameOffset + frames.length + chunks.flatten.length := by
              rw [List.length_append, Int.natCast_add, Int.add_assoc]
            rw [hfollow, hcount]
            exact (ih hresumable').trans (decode_conclude hconclude)

theorem decode_inv {frames : List (List S)} {st st' : State S} (hhyps : st.hyps = some hs)
    (hend : Whole.decode net f g b graph kept frames st = .ok st') :
    ∃ hs', Whole.follow net f g b graph kept st.frameOffset frames hs = .ok hs' ∧
      st'.hyps = some hs' := by
  rw [Whole.decode, hhyps] at hend
  cases frames with
  | nil =>
      obtain rfl := Except.ok.inj hend
      exact ⟨hs, rfl, hhyps⟩
  | cons frame frames =>
      obtain ⟨hs', hfollow, hconclude⟩ := bind_inv hend
      exact ⟨hs', hfollow, (conclude_inv hconclude).1⟩

theorem resumable_start (hnet : net.Computing f g vocabulary) (hwidth : 1 ≤ b.width)
    (bound : Option (Hotword.Graph S)) (hkept : ∀ rows ∈ kept, rows.length = 1) :
    Resumable net f b kept { (start net b).atRoot bound with prediction := kept } := by
  have htop (path : Hypothesis S) :
      ({ rule := b.rule, entries := [path] } : Hypotheses S).top b.width = [path] :=
    top_singleton (by omega)
  refine ⟨_, hyps_start bound, fitting_start _, ?_, fun network => ?_⟩
  · simpa only [htop, List.length_singleton] using hkept
  · rw [htop]
    cases kept with
    | none => exact predict_gives hnet (by simp)
    | some rows =>
        refine predict_gives_kept rfl ?_
        rw [List.length_replicate]
        exact Int.toNat_of_nonneg hnet.contextSize

theorem decodeFrames_start_gives (hnet : net.Computing f g vocabulary) (hwidth : 1 ≤ b.width)
    (hstart : (start net b).hyps = some hs) (frames : List (List S)) (network : σ) :
    Gives (decodeFrames net b graph true 0 frames hs) ⟨network, start net b⟩
      (Whole.follow net f g b graph none 0 frames hs) := by
  obtain rfl := Option.some.inj hstart
  exact decodeFrames_gives hnet hwidth frames (fitting_start none) (by simp)
    (predict_gives hnet (by simp [start]))

/-- However frames are cut into chunks, the search ends in the state of one loop over all of them
that keeps no prediction from frame to frame. Rows that the search starts with stand for the
prediction at the first frame. -/
theorem decodeChunks_whole (hnet : net.Computing f g vocabulary) (b : Settings)
    (hwidth : 1 ≤ b.width) (graph bound : Option (Hotword.Graph S))
    (kept : Option (List (List S))) (hkept : ∀ rows ∈ kept, rows.length = 1)
    {outs : List (Argument S)} {chunks : List (List (List S))} (houts : Chunks outs chunks)
    (network : σ) :
    let begin : State S := { (start net b).atRoot bound with prediction := kept }
    reached (decodeChunks net b graph outs ⟨network, begin⟩) =
        Whole.decode net f g b graph kept chunks.flatten begin ∧
      (1 ≤ net.contextSize → 0 < vocabulary → Anchored graph →
        ∃ st, Whole.decode net f g b graph kept chunks.flatten begin = .ok st) := by
  intro begin
  have hwhole : reached (decodeChunks net b graph outs ⟨network, begin⟩) =
      Whole.decode net f g b graph kept chunks.flatten begin :=
    reached_decodeChunks hnet hwidth houts (resumable_start hnet hwidth bound hkept)
  refine ⟨hwhole, fun hsize hpos hgraph => ?_⟩
  have hstart : Sound net vocabulary graph ((start net b).atRoot bound) := sound_start hgraph bound
  have hsound : Sound net vocabulary graph begin := ⟨hstart.tokens, hstart.paths, hkept⟩
  have hyields : Yields (decodeChunks net b graph outs) ⟨network, begin⟩
      fun _ s' => Sound net vocabulary graph s'.state :=
    decodeChunks_yields (hnet.responding hsize hpos) hgraph houts hsound
  obtain ⟨_, s', hrun, -⟩ := hyields
  rw [hrun] at hwhole
  exact ⟨s'.state, hwhole.symm⟩

theorem decodeChunks_whole_kept :
    let net := addingNetwork Float.ofInt 4
    let b : Settings := ⟨2, .logSumExp⟩
    let graph := Hotword.Graph.ofWeighted [([3, 1], (1.5 : Float))]
    let begin : State Float :=
      { (start net b).atRoot (some graph) with prediction := some [[5, 0]] }
    let outs : List (Argument Float) :=
      [.array { shape := [1, 1, 4], data := #[0, 3, 0, 1] },
        .array { shape := [1, 0, 4], data := #[] },
        .array { shape := [1, 2, 4], data := #[2, 0, 0, 1, 0, 0, 4, 4] }]
    let frames : List (List Float) := [[0, 3, 0, 1], [2, 0, 0, 1], [0, 0, 4, 4]]
    ∃ st, reached (decodeChunks net b (some graph) outs ⟨(), begin⟩) = .ok st ∧
      Whole.decode net (·.map Float.ofInt) (rowByRow (addedRow 4)) b (some graph) (some [[5, 0]])
        frames begin = .ok st := by
  intro net b graph begin outs frames
  have houts : Chunks outs [[[0, 3, 0, 1]], [], [[2, 0, 0, 1], [0, 0, 4, 4]]] :=
    .cons rfl (.cons rfl (.cons rfl .nil))
  have hgraph : Anchored (some graph) := by
    intro g hg
    obtain rfl := Option.some.inj hg
    exact ⟨_, rfl, by decide⟩
  have hnet : net.Computing (·.map Float.ofInt) (rowByRow (addedRow 4)) 4 :=
    addingNetwork_computing Float.ofInt (by decide)
  obtain ⟨hwhole, hruns⟩ :=
    decodeChunks_whole hnet b (by decide) (some graph) (some graph) (some [[5, 0]]) (by simp)
      houts ()
  obtain ⟨st, hst⟩ := hruns (by decide) (by decide) hgraph
  exact ⟨st, hwhole.trans hst, hst⟩

end Beam

end SpeechTransducer.Search
