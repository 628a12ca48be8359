import SpeechTransducer.Proofs.Search.Alignments
import SpeechTransducer.Proofs.Search.Whole

/-!
What a beam search that drops nothing computes. Where there is room for all extensions of all paths,
a frame makes every path go on with every token, and the weights of the paths with their factors add
up as before. Over all frames, the score of a path is therefore what the scores of all alignments
that spell its tokens are together.
-/

namespace SpeechTransducer.Search.Beam

variable {σ R : Type} {net : Network σ ℝ} {f : List Int → List ℝ} {j : List ℝ → List ℝ → List ℝ}
variable {vocabulary : Nat} {b : Settings} {rule : MergeRule} {hs hs' : Hypotheses ℝ} {t : Int}
variable {frame : List ℝ} {frames : List (List ℝ)}

theorem extensionScores_eq {path : Hypothesis ℝ} {logits row : List ℝ}
    (hlogits : logits.length = vocabulary) (h : extensionScores path logits = .ok row) :
    row = (List.range vocabulary).map fun v => logProbability logits v + path.score := by
  have hne : logits ≠ [] := by
    rintro rfl
    cases h
  rw [extensionScores, logSoftmax_eq_some hne] at h
  rw [← Except.ok.inj h, ← hlogits]
  apply List.ext_getElem
  · simp
  · intro i hi hi'
    have hi : i < logits.length := by simpa using hi
    simp [logProbability, LogScale.single, hi]

theorem scoreRows_eq {paths : List (Hypothesis ℝ)} {L : Hypothesis ℝ → List ℝ}
    {rows : List (List ℝ)} (hL : ∀ h, (L h).length = vocabulary)
    (h : scoreRows paths (paths.map L) = .ok rows) :
    rows = paths.map fun h =>
      (List.range vocabulary).map fun v => logProbability (L h) v + h.score := by
  have hzip : paths.zip (paths.map L) = paths.map fun h => (h, L h) :=
    List.map_prod_left_eq_zip.symm
  rw [scoreRows_of_length (List.length_map _)] at h
  have hscores := mapM_eq_map (R := fun p : Hypothesis ℝ × List ℝ =>
    (List.range vocabulary).map fun v => logProbability p.2 v + p.1.score) h ?_
  · rw [hscores, hzip, List.map_map]
    rfl
  · rintro ⟨path, logits⟩ hmem row hrow
    rw [hzip] at hmem
    obtain ⟨h, -, heq⟩ := List.mem_map.mp hmem
    obtain ⟨rfl, rfl⟩ := Prod.mk.inj heq
    exact extensionScores_eq (hL h) hrow

theorem zipIdx_map_range {α β : Type} (φ : α → Nat → β) (ρ : Nat → α) (n : Nat) :
    ((List.range n).map ρ).zipIdx.map (fun q => φ q.1 q.2) =
      (List.range n).map fun v => φ (ρ v) v := by
  apply List.ext_getElem
  · simp
  · intro i hi hi'
    simp

theorem extend_none (path : Hypothesis ℝ) (v : Nat) (score : ℝ) :
    (extend none t path v score).map (fun h => (h.tokens, h.score)) =
      .ok (path.tokens ++ spelled [v], score) := by
  rw [extend]
  split
  · rename_i hemission
    simp [spelled, hemission, Except.map]
  · rename_i hrest
    simp [spelled, hrest, Except.map]

/-- Where there is room for all extensions, every path goes on with every token. -/
theorem extensions_unpruned {paths : List (Hypothesis ℝ)} {k : Nat}
    (hk : paths.length * vocabulary ≤ k) (ρ : Hypothesis ℝ → Nat → ℝ) :
    ((extensions none t paths (best k (candidates (paths.map fun h =>
      (List.range vocabulary).map (ρ h))))).map (·.map fun h => (h.tokens, h.score))).Perm
      ((paths.flatMap fun h => (List.range vocabulary).map fun v =>
        (h.tokens ++ spelled [v], ρ h v)).map .ok) := by
  have hroom : (candidates (paths.map fun h => (List.range vocabulary).map (ρ h))).length ≤ k := by
    have hrows : ∀ row ∈ paths.map fun h => (List.range vocabulary).map (ρ h),
        row.length = vocabulary := by simp
    rwa [length_candidates hrows, List.length_map]
  refine (((best_perm hroom).filterMap _).map _).trans (.of_eq ?_)
  change (extensions none t paths (candidates _)).map _ = _
  rw [extensions_candidates (List.length_map _), ← List.map_prod_left_eq_zip]
  simp only [List.flatMap_map, List.map_flatMap, List.map_map, Function.comp_def]
  congr 1
  funext h
  rw [zipIdx_map_range fun x v => (extend none t h v x).map fun h => (h.tokens, h.score)]
  simp only [extend_none]

theorem vocabulary_pos {paths : List (Hypothesis ℝ)} {logits rows : List (List ℝ)}
    (hne : paths ≠ []) (hlen : logits.length = paths.length)
    (hlogits : ∀ row ∈ logits, row.length = vocabulary) (h : scoreRows paths logits = .ok rows) :
    0 < vocabulary := by
  obtain ⟨hcount, hfull⟩ := scoreRows_inv h
  rw [hlen] at hcount
  have hsome : rows ≠ [] := by
    apply List.ne_nil_of_length_pos
    exact hcount ▸ List.length_pos_iff.mpr hne
  obtain ⟨row, rest, rfl⟩ := List.exists_cons_of_ne_nil hsome
  obtain ⟨hrow, given, hgiven, hsame⟩ := hfull row List.mem_cons_self
  have hpos := List.length_pos_iff.mpr hrow
  rwa [hsame, hlogits given hgiven] at hpos

/-- What becomes of a path's tokens and score at a frame. -/
noncomputable def outlines (net : Network σ ℝ) (f : List Int → List ℝ)
    (j : List ℝ → List ℝ → List ℝ) (vocabulary : Nat) (frame : List ℝ)
    (entries : List (Hypothesis ℝ)) : List (List Int × ℝ) :=
  entries.flatMap fun h => (List.range vocabulary).map fun v =>
    (h.tokens ++ spelled [v], logProbability (j frame (f (net.context h.tokens))) v + h.score)

theorem step_unpruned (hnet : net.Computing f (rowByRow j) vocabulary) (hwidth : 1 ≤ b.width)
    (hne : hs.entries ≠ []) (hwide : hs.size * vocabulary ≤ b.width)
    (hstep : Whole.step net f (rowByRow j) b none none t frame (hs.top b.width) = .ok hs') :
    ∃ new, hs' = Hypotheses.ofList b.rule new ∧
      (new.map fun h => (h.tokens, h.score)).Perm
        (outlines net f j vocabulary frame hs.entries) := by
  obtain ⟨rows, hrows, hfollowing⟩ := bind_inv hstep
  obtain ⟨scores, hscores, hsuccessors⟩ := following_inv hfollowing
  obtain ⟨new, hnew, hall⟩ := successors_inv hsuccessors
  have hlogits (h : Hypothesis ℝ) : (j frame (f (net.context h.tokens))).length = vocabulary :=
    (hnet.shape frame [f (net.context h.tokens)]).2 _ (List.mem_singleton_self _)
  rw [predictions_inv hrows, rowByRow, List.map_map] at hscores
  have hpos : 0 < vocabulary := by
    refine vocabulary_pos (top_ne_nil hne (by omega)) (List.length_map _) ?_ hscores
    intro row hrow
    obtain ⟨h, -, rfl⟩ := List.mem_map.mp hrow
    exact hlogits h
  have hsize : hs.size ≤ b.width := Nat.le_trans (Nat.le_mul_of_pos_right _ hpos) hwide
  have hpaths : (hs.top b.width).Perm hs.entries := top_perm hsize
  obtain rfl := scoreRows_eq hlogits hscores
  refine ⟨new, hnew, ?_⟩
  have hroom : (hs.top b.width).length * vocabulary ≤ b.width := by
    rw [hpaths.length_eq]
    exact hwide
  have hunpruned := extensions_unpruned (t := t) hroom fun h v =>
    logProbability (j frame (f (net.context h.tokens))) v + h.score
  have houtline := hunpruned.trans ((hpaths.flatMap_right _).map _)
  rw [hall, List.map_map] at houtline
  have hinjective : Function.Injective (Except.ok : List Int × ℝ → Except Fault (List Int × ℝ)) :=
    fun _ _ => Except.ok.inj
  refine (List.map_perm_map_iff hinjective).mp ?_
  rw [List.map_map]
  exact houtline

section

variable [CommSemiring R] {w : ℝ → R} {F : List Int → R}

/-- The weights of a path's extensions at a frame. -/
noncomputable def ahead (net : Network σ ℝ) (f : List Int → List ℝ) (j : List ℝ → List ℝ → List ℝ)
    (vocabulary : Nat) (w : ℝ → R) (F : List Int → R) (frame : List ℝ) (tokens : List Int) : R :=
  ∑ v ∈ Finset.range vocabulary, F (tokens ++ spelled [v]) *
    w (logProbability (j frame (f (net.context tokens))) v)

theorem total_step (hw : Weighs rule w) {new : List (Hypothesis ℝ)}
    (hnew : (new.map fun h => (h.tokens, h.score)).Perm
      (outlines net f j vocabulary frame hs.entries)) :
    total w F (Hypotheses.ofList rule new).entries =
      total w (ahead net f j vocabulary w F frame) hs.entries := by
  have hsum : total w F new =
      ((outlines net f j vocabulary frame hs.entries).map fun p => F p.1 * w p.2).sum := by
    rw [← (hnew.map _).sum_eq, List.map_map]
    rfl
  rw [total_ofList hw, hsum, outlines, List.map_flatMap, List.flatMap_def, List.sum_flatten,
    List.map_map, total]
  refine congrArg List.sum (List.map_congr_left fun h _ => ?_)
  have hrange (G : Nat → R) :
      ((List.range vocabulary).map G).sum = ∑ v ∈ Finset.range vocabulary, G v := rfl
  rw [Function.comp_apply, List.map_map, hrange, ahead, Finset.sum_mul]
  refine Finset.sum_congr rfl fun v _ => ?_
  rw [Function.comp_apply, hw.add, mul_assoc]

/-- What a path's weight is multiplied with over frames: the weights of all alignments. -/
noncomputable def aheadAll (net : Network σ ℝ) (f : List Int → List ℝ)
    (j : List ℝ → List ℝ → List ℝ) (vocabulary : Nat) (w : ℝ → R) (F : List Int → R)
    (frames : List (List ℝ)) (tokens : List Int) : R :=
  ∑ a ∈ alignments vocabulary frames.length, F (tokens ++ spelled a) *
    w (alignmentScore net f j tokens frames a)

theorem aheadAll_cons (hw : Weighs rule w) (frames : List (List ℝ)) (tokens : List Int) :
    aheadAll net f j vocabulary w F (frame :: frames) tokens =
      ahead net f j vocabulary w (aheadAll net f j vocabulary w F frames) frame tokens := by
  rw [aheadAll, List.length_cons, sum_alignments_succ, ahead]
  refine Finset.sum_congr rfl fun v _ => ?_
  rw [aheadAll, Finset.sum_mul]
  refine Finset.sum_congr rfl fun a _ => ?_
  rw [spelled_cons, ← List.append_assoc, alignmentScore, hw.add]
  ring

theorem aheadAll_nil (hw : Weighs rule w) : aheadAll net f j vocabulary w F [] = F := by
  funext tokens
  simp [aheadAll, alignments, spelled, alignmentScore, hw.zero]

end

theorem mem_tokens_step {new : List (Hypothesis ℝ)} {tokens : List Int}
    (hnew : (new.map fun h => (h.tokens, h.score)).Perm
      (outlines net f j vocabulary frame hs.entries)) :
    tokens ∈ (Hypotheses.ofList rule new).entries.map (·.tokens) ↔
      ∃ h ∈ hs.entries, ∃ v < vocabulary, h.tokens ++ spelled [v] = tokens := by
  have houtlines : (∃ h ∈ new, h.tokens = tokens) ↔
      ∃ p ∈ outlines net f j vocabulary frame hs.entries, p.1 = tokens := by
    simp [← hnew.mem_iff]
  rw [Hypotheses.mem_tokens_ofList, houtlines]
  simp [outlines]

/-- At none of the frames is a path or an extension left out. -/
def Unpruned (net : Network σ ℝ) (f : List Int → List ℝ) (j : List ℝ → List ℝ → List ℝ)
    (b : Settings) (vocabulary : Nat) (t : Int) (frames : List (List ℝ)) (hs : Hypotheses ℝ) :
    Prop :=
  ∀ n < frames.length, ∀ hs',
    Whole.follow net f (rowByRow j) b none none t (frames.take n) hs = .ok hs' →
      hs'.size * vocabulary ≤ b.width

theorem Unpruned.head (h : Unpruned net f j b vocabulary t (frame :: frames) hs) :
    hs.size * vocabulary ≤ b.width :=
  h 0 (Nat.zero_lt_succ _) hs rfl

theorem Unpruned.tail (h : Unpruned net f j b vocabulary t (frame :: frames) hs)
    (hstep : Whole.step net f (rowByRow j) b none none t frame (hs.top b.width) = .ok hs') :
    Unpruned net f j b vocabulary (t + 1) frames hs' := by
  intro n hn hs'' hfollow
  refine h (n + 1) (Nat.succ_lt_succ hn) hs'' ?_
  rw [List.take_succ_cons, Whole.follow, hstep]
  exact hfollow

/-- Frames at which every path goes on with every token, from some paths to others. -/
inductive Spreads (net : Network σ ℝ) (f : List Int → List ℝ) (j : List ℝ → List ℝ → List ℝ)
    (vocabulary : Nat) (rule : MergeRule) :
    List (List ℝ) → Hypotheses ℝ → Hypotheses ℝ → Prop where
  | nil (hs : Hypotheses ℝ) : Spreads net f j vocabulary rule [] hs hs
  | cons {frame : List ℝ} {frames : List (List ℝ)} {hs hs' : Hypotheses ℝ}
      {new : List (Hypothesis ℝ)}
      (hnew : (new.map fun h => (h.tokens, h.score)).Perm
        (outlines net f j vocabulary frame hs.entries))
      (hrest : Spreads net f j vocabulary rule frames (Hypotheses.ofList rule new) hs') :
      Spreads net f j vocabulary rule (frame :: frames) hs hs'

theorem spreads_of_follow (hnet : net.Computing f (rowByRow j) vocabulary) (hwidth : 1 ≤ b.width)
    (hfits : Fitting hs) (hwide : Unpruned net f j b vocabulary t frames hs)
    (hfollow : Whole.follow net f (rowByRow j) b none none t frames hs = .ok hs') :
    Spreads net f j vocabulary b.rule frames hs hs' := by
  induction frames generalizing t hs with
  | nil =>
      obtain rfl := Except.ok.inj hfollow
      exact .nil hs
  | cons frame frames ih =>
      obtain ⟨hs₁, hstep, hfollow⟩ := bind_inv hfollow
      obtain ⟨new, rfl, hnew⟩ := step_unpruned hnet hwidth hfits.ne_nil hwide.head hstep
      have hnext : Fitting (Hypotheses.ofList b.rule new) :=
        step_fitting hnet hwidth hfits (by simp) hstep
      exact .cons hnew (ih hnext (hwide.tail hstep) hfollow)

theorem Spreads.total [CommSemiring R] {w : ℝ → R} {F : List Int → R} (hw : Weighs rule w)
    (h : Spreads net f j vocabulary rule frames hs hs') :
    Beam.total w F hs'.entries =
      Beam.total w (aheadAll net f j vocabulary w F frames) hs.entries := by
  induction h with
  | nil hs => rw [aheadAll_nil hw]
  | cons hnew _ ih =>
      rw [ih, total_step hw hnew]
      congr 1
      funext tokens
      exact (aheadAll_cons hw _ tokens).symm

/-- The paths that there are at the end are those that some alignment spells. -/
theorem Spreads.mem_tokens (h : Spreads net f j vocabulary rule frames hs hs')
    {tokens : List Int} :
    tokens ∈ hs'.entries.map (·.tokens) ↔
      ∃ h ∈ hs.entries, ∃ a ∈ alignments vocabulary frames.length,
        h.tokens ++ spelled a = tokens := by
  induction h with
  | nil hs => simp [alignments, spelled]
  | cons hnew _ ih =>
      rw [ih]
      constructor
      · rintro ⟨h₁, hh₁, a, ha, rfl⟩
        obtain ⟨h, hh, v, hv, heq⟩ := (mem_tokens_step hnew).mp (List.mem_map_of_mem hh₁)
        refine ⟨h, hh, v :: a, mem_alignments_succ.mpr ⟨v, hv, a, ha, rfl⟩, ?_⟩
        rw [spelled_cons, ← List.append_assoc, heq]
      · rintro ⟨h, hh, a, ha, rfl⟩
        obtain ⟨v, hv, rest, hrest, rfl⟩ := mem_alignments_succ.mp ha
        obtain ⟨h₁, hh₁, heq⟩ := List.mem_map.mp ((mem_tokens_step hnew).mpr ⟨h, hh, v, hv, rfl⟩)
        refine ⟨h₁, hh₁, rest, hrest, ?_⟩
        rw [spelled_cons, ← List.append_assoc, heq]

theorem Spreads.nodup (h : Spreads net f j vocabulary rule frames hs hs')
    (hnodup : (hs.entries.map (·.tokens)).Nodup) : (hs'.entries.map (·.tokens)).Nodup := by
  induction h with
  | nil hs => exact hnodup
  | cons _ _ ih => exact ih Hypotheses.nodup_ofList

variable {first : Hypothesis ℝ}

/-- From one path without score, a path's weight is the sum over the alignments that spell it. -/
theorem Spreads.weight [CommSemiring R] {w : ℝ → R} (hw : Weighs rule w)
    (h : Spreads net f j vocabulary rule frames hs hs') (hone : hs.entries = [first])
    (hscore : first.score = 0) {path : Hypothesis ℝ} (hpath : path ∈ hs'.entries) :
    w path.score = ∑ a ∈ (alignments vocabulary frames.length).filter
        fun a => first.tokens ++ spelled a = path.tokens,
      w (alignmentScore net f j first.tokens frames a) := by
  have hnodup : (hs'.entries.map (·.tokens)).Nodup := by
    refine h.nodup ?_
    rw [hone]
    exact List.nodup_singleton _
  rw [← total_single (w := w) hnodup hpath, h.total hw, hone]
  simp only [Beam.total, List.map_singleton, List.sum_singleton, hscore, hw.zero, mul_one,
    aheadAll, ite_mul, one_mul, zero_mul]
  exact (Finset.sum_filter _ _).symm

theorem Spreads.combined (h : Spreads net f j vocabulary rule frames hs hs')
    (hone : hs.entries = [first]) (hscore : first.score = 0) {path : Hypothesis ℝ}
    (hpath : path ∈ hs'.entries) :
    Combined rule ((alignments vocabulary frames.length).filter
        fun a => first.tokens ++ spelled a = path.tokens)
      (alignmentScore net f j first.tokens frames) path.score := by
  cases rule with
  | best => exact isGreatest_of_loss (h.weight weighs_loss hone hscore hpath)
  | logSumExp => rw [Combined, ← h.weight weighs_exp hone hscore hpath, Real.log_exp]

theorem size_follow_le (hnet : net.Computing f (rowByRow j) vocabulary)
    (hfollow : Whole.follow net f (rowByRow j) b none none t frames hs = .ok hs') :
    hs'.size ≤ hs.size * vocabulary ^ frames.length := by
  induction frames generalizing t hs with
  | nil =>
      obtain rfl := Except.ok.inj hfollow
      simp
  | cons frame frames ih =>
      obtain ⟨hs₁, hstep, hfollow⟩ := bind_inv hfollow
      obtain ⟨rows, hrows, hfollowing⟩ := bind_inv hstep
      obtain ⟨scores, hscores, hsuccessors⟩ := following_inv hfollowing
      obtain ⟨hlen, hfull⟩ := scoreRows_inv hscores
      have hscores' : ∀ row ∈ scores, row.length = vocabulary := by
        intro row hrow
        obtain ⟨-, given, hgiven, hsame⟩ := hfull row hrow
        exact hsame.trans ((hnet.shape frame rows).2 given hgiven)
      have hpaths : scores.length ≤ hs.size := by
        rw [hlen, (hnet.shape frame rows).1, predictions_inv hrows, List.length_map]
        exact length_top_le b.width
      have hnext : hs₁.size ≤ hs.size * vocabulary :=
        calc hs₁.size ≤ (best b.width (candidates scores)).length := size_successors_le hsuccessors
          _ ≤ (candidates scores).length := by
              rw [best, List.length_take, List.length_mergeSort]
              exact Nat.min_le_right _ _
          _ = scores.length * vocabulary := length_candidates hscores'
          _ ≤ hs.size * vocabulary := Nat.mul_le_mul_right _ hpaths
      calc hs'.size ≤ hs₁.size * vocabulary ^ frames.length := ih hfollow
        _ ≤ hs.size * vocabulary * vocabulary ^ frames.length := Nat.mul_le_mul_right _ hnext
        _ = hs.size * vocabulary ^ (frame :: frames).length := by
            rw [List.length_cons, pow_succ', Nat.mul_assoc]

theorem size_follow_le_width (hsize : hs.size ≤ b.width)
    (hfollow : Whole.follow net f (rowByRow j) b none none t frames hs = .ok hs') :
    hs'.size ≤ b.width := by
  induction frames generalizing t hs with
  | nil => exact Except.ok.inj hfollow ▸ hsize
  | cons frame frames ih =>
      obtain ⟨hs₁, hstep, hfollow⟩ := bind_inv hfollow
      obtain ⟨rows, -, hfollowing⟩ := bind_inv hstep
      obtain ⟨scores, -, hsuccessors⟩ := following_inv hfollowing
      exact ih ((size_successors_le hsuccessors).trans (best_length_le _ _)) hfollow

/-- A beam that is as wide as there are alignments has room for all extensions. -/
theorem room_of_pow_le (hnet : net.Computing f (rowByRow j) vocabulary) (hwidth : 1 ≤ b.width)
    (hpow : vocabulary ^ frames.length ≤ b.width) {hs₀ : Hypotheses ℝ}
    (hstart : (start net b).hyps = some hs₀) {n : Nat} (hn : n < frames.length) {network : σ}
    {s' : Session σ ℝ}
    (hrun : decodeFrames net b none true 0 (frames.take n) hs₀ ⟨network, start net b⟩ = .ok hs s') :
    (hs.top b.width).length * vocabulary ≤ b.width := by
  refine Nat.le_trans (Nat.mul_le_mul_right _ (length_top_le _)) ?_
  have hgives : Gives (decodeFrames net b none true 0 (frames.take n) hs₀)
      ⟨network, start net b⟩
      (Whole.follow net f (rowByRow j) b none none 0 (frames.take n) hs₀) :=
    decodeFrames_start_gives hnet hwidth hstart (frames.take n) network
  have hsize := size_follow_le hnet (hgives.of_ok hrun).1
  have hone : hs₀.size = 1 := by
    obtain rfl := Option.some.inj hstart
    rfl
  rw [hone, Nat.one_mul, List.length_take_of_le (Nat.le_of_lt hn)] at hsize
  cases vocabulary with
  | zero => omega
  | succ v =>
      calc hs.size * (v + 1) ≤ (v + 1) ^ n * (v + 1) := Nat.mul_le_mul_right _ hsize
        _ = (v + 1) ^ (n + 1) := (pow_succ _ _).symm
        _ ≤ (v + 1) ^ frames.length := Nat.pow_le_pow_right (Nat.succ_pos v) hn
        _ ≤ b.width := hpow

/-- If at every frame there is room for all extensions of all paths, then exactly those paths are
left that some alignment spells, and the score of each is what the scores of these alignments are
together. -/
theorem decodeChunks_alignments (hnet : net.Computing f (rowByRow j) vocabulary) (b : Settings)
    (hwidth : 1 ≤ b.width) {outs : List (Argument ℝ)} {chunks : List (List (List ℝ))}
    (houts : Chunks outs chunks) (network : σ)
    (hwide : ∀ hs₀ ∈ (start net b).hyps, ∀ n < chunks.flatten.length, ∀ hs s',
      decodeFrames net b none true 0 (chunks.flatten.take n) hs₀ ⟨network, start net b⟩ =
        .ok hs s' → (hs.top b.width).length * vocabulary ≤ b.width) :
    (∀ s', decodeChunks net b none outs ⟨network, start net b⟩ = .ok () s' →
      ∃ hs, s'.state.hyps = some hs ∧
        (∀ tokens, tokens ∈ hs.entries.map (·.tokens) ↔
          ∃ a : List Nat, a.length = chunks.flatten.length ∧ (∀ v ∈ a, v < vocabulary) ∧
            padding net ++ spelled a = tokens) ∧
        ∀ h ∈ hs.entries, Combined b.rule
          ((alignments vocabulary chunks.flatten.length).filter
            fun a => padding net ++ spelled a = h.tokens)
          (alignmentScore net f j (padding net) chunks.flatten) h.score) ∧
    (1 ≤ net.contextSize → 0 < vocabulary →
      ∃ s', decodeChunks net b none outs ⟨network, start net b⟩ = .ok () s') := by
  let first : Hypothesis ℝ := { tokens := padding net, score := 0 }
  let hs₀ : Hypotheses ℝ := { rule := b.rule, entries := [first] }
  have hhyps : (start net b).hyps = some hs₀ := rfl
  have hone : hs₀.entries = [first] := rfl
  have hscore : first.score = 0 := rfl
  have hfits : Fitting hs₀ := fitting_start none
  have hunpruned : Unpruned net f j b vocabulary 0 chunks.flatten hs₀ := by
    intro n hn hs hfollow
    obtain ⟨s', hrun⟩ :=
      (decodeFrames_start_gives hnet hwidth hhyps (chunks.flatten.take n) network).of_eq_ok hfollow
    have hstart : hs₀.size ≤ b.width := hwidth
    have hsize : hs.size ≤ b.width := size_follow_le_width hstart hfollow
    rw [Hypotheses.size, ← (top_perm hsize).length_eq]
    exact hwide hs₀ hhyps n hn hs s' hrun
  constructor
  · intro s' hrun
    have hresumable : Resumable net f b none (start net b) :=
      resumable_start hnet hwidth none (by simp)
    have hwhole : reached (decodeChunks net b none outs ⟨network, start net b⟩) =
        Whole.decode net f (rowByRow j) b none none chunks.flatten (start net b) :=
      reached_decodeChunks hnet hwidth houts hresumable
    rw [hrun] at hwhole
    obtain ⟨hs, hfollow, hend⟩ := decode_inv hhyps hwhole.symm
    have hspreads := spreads_of_follow hnet hwidth hfits hunpruned hfollow
    refine ⟨hs, hend, fun tokens => ?_, fun h hh => hspreads.combined hone hscore hh⟩
    rw [hspreads.mem_tokens, hone]
    simp only [List.mem_singleton, exists_eq_left, mem_alignments, and_assoc]
    rfl
  · intro hsize hpos
    have hgraph : Anchored (none : Option (Hotword.Graph ℝ)) := by simp [Anchored]
    have hsound : Sound net vocabulary none (start net b) := sound_start hgraph none
    have hyields : Yields (decodeChunks net b none outs) ⟨network, start net b⟩
        fun _ s' => Sound net vocabulary none s'.state :=
      decodeChunks_yields (hnet.responding hsize hpos) hgraph houts hsound
    obtain ⟨_, s', hrun, -⟩ := hyields
    exact ⟨s', hrun⟩

theorem decodeChunks_alignments_merged :
    let net := addingNetwork (Int.cast : Int → ℝ) 3
    let b : Settings := ⟨9, .logSumExp⟩
    let outs : List (Argument ℝ) :=
      [.array { shape := [1, 1, 3], data := #[0, 1, 2] },
        .array { shape := [1, 1, 3], data := #[1, 0, 0] }]
    let frames : List (List ℝ) := [[0, 1, 2], [1, 0, 0]]
    ∃ s' hs, decodeChunks net b none outs ⟨(), start net b⟩ = .ok () s' ∧
      s'.state.hyps = some hs ∧
      (∀ tokens, tokens ∈ hs.entries.map (·.tokens) ↔
        ∃ a : List Nat, a.length = 2 ∧ (∀ v ∈ a, v < 3) ∧ [0, 0] ++ spelled a = tokens) ∧
      ∀ h ∈ hs.entries, h.score =
        Real.log (∑ a ∈ (alignments 3 2).filter fun a => [0, 0] ++ spelled a = h.tokens,
          Real.exp (alignmentScore net (·.map Int.cast) (addedRow 3) [0, 0] frames a)) := by
  intro net b outs frames
  have hnet : net.Computing (·.map Int.cast) (rowByRow (addedRow 3)) 3 :=
    addingNetwork_computing Int.cast (by decide)
  have houts : Chunks outs [[[0, 1, 2]], [[1, 0, 0]]] := .cons rfl (.cons rfl .nil)
  obtain ⟨hall, hruns⟩ := decodeChunks_alignments hnet b (by decide) houts ()
    fun hs₀ hstart n hn hs s' hrun => room_of_pow_le hnet (by decide) (by decide) hstart hn hrun
  obtain ⟨s', hrun⟩ := hruns (by decide) (by decide)
  obtain ⟨hs, hhyps, hpresent, hscores⟩ := hall s' hrun
  exact ⟨s', hs, hrun, hhyps, hpresent, hscores⟩

end SpeechTransducer.Search.Beam
