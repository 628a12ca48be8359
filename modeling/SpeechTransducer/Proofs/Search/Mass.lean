import SpeechTransducer.Proofs.Score.Probability
import SpeechTransducer.Proofs.Search.Chunks
import SpeechTransducer.Proofs.Search.Interrupted

/-!
The probability of all paths of a beam together. A frame spreads the probability of every path over
its extensions, takes the best of those and puts the ones with the same tokens together again. None
of the three makes probability, so there is never more of it than before, and never more than one.
-/

namespace SpeechTransducer.Search.Beam

open scoped ENNReal

section

variable {ε τ α β : Type}

theorem bind_eq_ok {m : EStateM ε τ α} {f : α → EStateM ε τ β} {s s'' : τ} {b : β}
    (h : (m >>= f) s = .ok b s'') : ∃ a s', m s = .ok a s' ∧ f a s' = .ok b s'' := by
  change EStateM.bind m f s = _ at h
  rw [EStateM.bind] at h
  split at h
  · exact ⟨_, _, ‹_›, h⟩
  · cases h

theorem sum_sublist_le (u : α → ℝ≥0∞) {xs ys : List α} (h : xs.Sublist ys) :
    (xs.map u).sum ≤ (ys.map u).sum :=
  (h.map u).sum_le_sum fun _ _ => zero_le

theorem sum_forall₂_le {u : β → ℝ≥0∞} {v : α → ℝ≥0∞} {xs : List α} {ys : List β}
    (h : List.Forall₂ (fun x y => u y ≤ v x) xs ys) : (ys.map u).sum ≤ (xs.map v).sum := by
  induction h with
  | nil => exact le_rfl
  | cons hle _ ih =>
      rw [List.map_cons, List.sum_cons, List.map_cons, List.sum_cons]
      exact add_le_add hle ih

end

variable {σ S : Type}

/-- The probability of all paths together. -/
def mass (w : S → ℝ≥0∞) (hs : Hypotheses S) : ℝ≥0∞ := (hs.entries.map fun h => w h.score).sum

variable [Zero S] [Add S] [Sub S] [BEq S] [LT S] [DecidableLT S] [LogScale S]
variable {w : S → ℝ≥0∞} {rule : MergeRule} {b : Settings} {t : Int} {hs : Hypotheses S}

omit [Zero S] [Add S] [Sub S] [LogScale S] in
theorem sum_top_le (w : S → ℝ≥0∞) (hs : Hypotheses S) (k : Int) :
    ((hs.top k).map fun h => w h.score).sum ≤ mass w hs := by
  calc ((hs.top k).map fun h => w h.score).sum
      ≤ (hs.ranked.map fun h => w h.score).sum :=
        sum_sublist_le _ (List.take_sublist _ _)
    _ = mass w hs := (ranked_perm.map _).sum_eq

omit [Zero S] [Add S] [Sub S] [LogScale S] in
theorem sum_best_le (w : S → ℝ≥0∞) {k n : Nat} {cs : List (Candidate S)}
    (h : ∀ c ∈ best k cs, c.path < n) : ((best k cs).map fun c => w c.score).sum ≤
      ((cs.filter (·.path < n)).map fun c => w c.score).sum := by
  let sorted := cs.mergeSort fun a b => !comesBefore b.score a.score
  have hkept : (best k cs).filter (·.path < n) = best k cs :=
    List.filter_eq_self.mpr fun c hc => decide_eq_true (h c hc)
  have hsub : ((best k cs).filter (·.path < n)).Sublist (sorted.filter (·.path < n)) :=
    (List.take_sublist k sorted).filter _
  calc ((best k cs).map fun c => w c.score).sum
      = (((best k cs).filter (·.path < n)).map fun c => w c.score).sum := by rw [hkept]
    _ ≤ ((sorted.filter (·.path < n)).map fun c => w c.score).sum := sum_sublist_le _ hsub
    _ = ((cs.filter (·.path < n)).map fun c => w c.score).sum :=
        (((List.mergeSort_perm _ _).filter _).map _).sum_eq

omit [Zero S] [Add S] [Sub S] [BEq S] [LT S] [DecidableLT S] [LogScale S] in
theorem candidates_eq (rows : List (List S)) : candidates rows = rows.zipIdx.flatMap fun p =>
    p.1.zipIdx.map fun q => { path := p.2, token := q.2, score := q.1 } :=
  rfl

omit [Zero S] [Add S] [Sub S] [BEq S] [LT S] [DecidableLT S] [LogScale S] in
/-- The extensions of the first paths are those with the first rows. -/
theorem filter_candidates (rows : List (List S)) (n : Nat) :
    (candidates rows).filter (·.path < n) = candidates (rows.take n) := by
  have hfirst : (candidates (rows.take n)).filter (·.path < n) = candidates (rows.take n) := by
    refine List.filter_eq_self.mpr fun c hc => decide_eq_true ?_
    exact (path_lt_of_mem_candidates hc).trans_le (List.length_take_le n rows)
  have hrest : (((rows.drop n).zipIdx (rows.take n).length).flatMap fun p =>
      p.1.zipIdx.map fun q =>
        ({ path := p.2, token := q.2, score := q.1 } : Candidate S)).filter (·.path < n) = [] := by
    refine List.filter_eq_nil_iff.mpr fun c hc => ?_
    obtain ⟨p, hrow, hc⟩ := List.mem_flatMap.mp hc
    obtain ⟨_, -, rfl⟩ := List.mem_map.mp hc
    have hle := List.le_snd_of_mem_zipIdx hrow
    have hlt := List.snd_lt_add_of_mem_zipIdx hrow
    rw [List.length_drop] at hlt
    rw [List.length_take] at hle hlt
    simp only [decide_eq_true_eq]
    omega
  calc (candidates rows).filter (·.path < n)
      = (candidates (rows.take n ++ rows.drop n)).filter (·.path < n) := by
        rw [List.take_append_drop]
    _ = (candidates (rows.take n)).filter (·.path < n) ++ [] := by
        rw [← hrest, ← List.filter_append, candidates_eq, candidates_eq, List.zipIdx_append,
          List.flatMap_append, Nat.zero_add]
    _ = candidates (rows.take n) := by rw [List.append_nil, hfirst]

omit [Zero S] [Add S] [Sub S] [BEq S] [LT S] [DecidableLT S] [LogScale S] in
theorem sum_candidates (w : S → ℝ≥0∞) (rows : List (List S)) :
    ((candidates rows).map fun c => w c.score).sum = (rows.map fun row => (row.map w).sum).sum := by
  have hrow (row : List S) (path : Nat) :
      ((row.zipIdx.map fun p => ({ path, token := p.2, score := p.1 } : Candidate S)).map
        fun c => w c.score) = row.map w := by
    calc _ = (row.zipIdx.map Prod.fst).map w := by
          rw [List.map_map, List.map_map]
          rfl
      _ = row.map w := by rw [List.zipIdx_map_fst]
  calc ((candidates rows).map fun c => w c.score).sum
      = (rows.zipIdx.map fun p => (p.1.map w).sum).sum := by
        rw [candidates, List.map_flatMap, List.flatMap_def, List.sum_flatten, List.map_map]
        exact congrArg List.sum (List.map_congr_left fun p _ => congrArg List.sum (hrow p.1 p.2))
    _ = ((rows.zipIdx.map Prod.fst).map fun row => (row.map w).sum).sum := by rw [List.map_map]; rfl
    _ = (rows.map fun row => (row.map w).sum).sum := by rw [List.zipIdx_map_fst]

theorem sum_extensionScores_le (hw : Conserving w) (path : Hypothesis S) {logits row : List S}
    (h : extensionScores path logits = .ok row) : (row.map w).sum ≤ w path.score := by
  rw [extensionScores] at h
  split at h
  · rename_i normalized hsoft
    obtain rfl := Except.ok.inj h
    calc ((normalized.map fun x => LogScale.single (x + LogScale.single path.score)).map w).sum
        = (normalized.map fun x => w x * w path.score).sum := by
          simp only [List.map_map, Function.comp_def, hw.single, hw.add]
      _ = (normalized.map w).sum * w path.score := List.sum_map_mul_right ..
      _ ≤ 1 * w path.score := by
          gcongr
          exact hw.sum_logSoftmax_le _ _ hsoft
      _ = w path.score := one_mul _
  · cases h

omit [Zero S] [Add S] [Sub S] [BEq S] [LT S] [DecidableLT S] [LogScale S] in
theorem take_owners_sublist {paths ranked : List (Hypothesis S)} {logits : List (List S)}
    (h : owners paths logits = .ok ranked) : (ranked.take paths.length).Sublist paths := by
  obtain ⟨-, rfl⟩ | ⟨path, rfl, rfl⟩ := owners_inv h
  · exact List.take_sublist _ _
  · cases logits with
    | nil => exact List.nil_sublist _
    | cons row logits => exact .refl [path]

/-- The rows of the paths that are there have no more probability than the paths. -/
theorem sum_scoreRows_le (hw : Conserving w) {paths : List (Hypothesis S)}
    {logits rows : List (List S)} (h : scoreRows paths logits = .ok rows) :
    ((rows.take paths.length).map fun row => (row.map w).sum).sum ≤
      (paths.map fun h => w h.score).sum := by
  obtain ⟨ranked, hranked, hscores⟩ := bind_inv h
  have hpairs := List.forall₂_take paths.length (mapM_forall₂ hscores)
  have hfst : ((ranked.zip logits).take paths.length).map Prod.fst = ranked.take paths.length := by
    rw [List.map_take, List.map_fst_zip (length_owners hranked).le]
  calc ((rows.take paths.length).map fun row => (row.map w).sum).sum
      ≤ (((ranked.zip logits).take paths.length).map fun p => w p.1.score).sum :=
        sum_forall₂_le (hpairs.imp fun p row hrow => sum_extensionScores_le hw p.1 hrow)
    _ = ((ranked.take paths.length).map fun h => w h.score).sum := by
        rw [← hfst, List.map_map]
        rfl
    _ ≤ (paths.map fun h => w h.score).sum :=
        sum_sublist_le _ (take_owners_sublist hranked)

theorem weight_combine_le (hw : Conserving w) (old new : Hypothesis S) :
    w (Hypotheses.combine rule old new).score ≤ w old.score + w new.score := by
  cases rule with
  | logSumExp => exact hw.logAdd_le old.score new.score
  | best =>
      change w (Hypotheses.stronger old new).score ≤ _
      rw [Hypotheses.stronger]
      split
      · exact le_add_self
      · exact le_self_add

theorem mass_add_le (hw : Conserving w) (hs : Hypotheses S) (h : Hypothesis S) :
    mass w (hs.add h) ≤ mass w hs + w h.score := by
  obtain ⟨rule, entries⟩ := hs
  rw [mass, mass, Hypotheses.add]
  induction entries with
  | nil => simp [Hypotheses.addTo]
  | cons old rest ih =>
      rw [Hypotheses.addTo]
      split
      · rw [List.map_cons, List.sum_cons, List.map_cons, List.sum_cons, add_right_comm]
        gcongr
        exact weight_combine_le hw old h
      · rw [List.map_cons, List.sum_cons, List.map_cons, List.sum_cons, add_assoc]
        gcongr

omit [LT S] [DecidableLT S] [LogScale S] in
theorem score_extend {path h : Hypothesis S} {token : Int} {score : S}
    (hextend : extend none t path token score = .ok h) : h.score = score + 0 := by
  rw [extend] at hextend
  split at hextend
  · cases hextend
    rfl
  · cases hextend
    rfl

theorem mass_addSuccessor_le (hw : Conserving w) {paths : List (Hypothesis S)} {c : Candidate S}
    {before after : Hypotheses S}
    (h : successors.addSuccessor none t paths before c = .ok after) :
    mass w after ≤ mass w before + w c.score := by
  rw [successors.addSuccessor] at h
  split at h
  · rename_i path _
    cases hextend : extend none t path c.token c.score with
    | error e =>
        rw [hextend] at h
        cases h
    | ok new =>
        rw [hextend] at h
        obtain rfl := Except.ok.inj h
        have hnew : w new.score = w c.score := by
          rw [score_extend hextend, hw.add, hw.zero, mul_one]
        exact hnew ▸ mass_add_le hw before new
  · cases h

theorem mass_successors_le (hw : Conserving w) {paths : List (Hypothesis S)}
    {chosen : List (Candidate S)} (h : successors b none t paths chosen = .ok hs) :
    mass w hs ≤ (chosen.map fun c => w c.score).sum := by
  have hfold (before : Hypotheses S)
      (h : chosen.foldlM (successors.addSuccessor none t paths) before = .ok hs) :
      mass w hs ≤ mass w before + (chosen.map fun c => w c.score).sum := by
    clear * - hw h
    induction chosen generalizing before with
    | nil =>
        obtain rfl := Except.ok.inj h
        exact le_self_add
    | cons c chosen ih =>
        rw [List.foldlM_cons] at h
        obtain ⟨after, hafter, h⟩ := bind_inv h
        rw [List.map_cons, List.sum_cons, ← add_assoc]
        exact (ih after h).trans (add_le_add_left (mass_addSuccessor_le hw hafter) _)
  calc mass w hs
      ≤ mass w { rule := b.rule } + (chosen.map fun c => w c.score).sum := hfold _ h
    _ = (chosen.map fun c => w c.score).sum := zero_add _

/-- A frame makes no probability, whatever the logits are. -/
theorem mass_following_le (hw : Conserving w) {logits : List (List S)} {hs' : Hypotheses S}
    (h : following b none t (hs.top b.width) logits = .ok hs') : mass w hs' ≤ mass w hs := by
  obtain ⟨rows, hrows, hsuccessors⟩ := following_inv h
  calc mass w hs'
      ≤ ((best b.width (candidates rows)).map fun c => w c.score).sum :=
        mass_successors_le hw hsuccessors
    _ ≤ (((candidates rows).filter (·.path < (hs.top b.width).length)).map
          fun c => w c.score).sum := sum_best_le w fun _ hc => path_lt_of_successors hsuccessors hc
    _ = ((rows.take (hs.top b.width).length).map fun row => (row.map w).sum).sum := by
        rw [filter_candidates, sum_candidates]
    _ ≤ ((hs.top b.width).map fun h => w h.score).sum := sum_scoreRows_le hw hrows
    _ ≤ mass w hs := sum_top_le _ _ _

section

variable {net : Network σ S} {s : Session σ S}

theorem decodeFrames_mass (hw : Conserving w) (isFirst : Bool) (t : Int) (frames : List (List S))
    (hs : Hypotheses S) :
    Leaves (decodeFrames net b none isFirst t frames hs) s
      (fun hs' s' => mass w hs' ≤ mass w hs ∧ Consumed s.state s'.state)
      fun _ s' => True ∧ Consumed s.state s'.state := by
  refine decodeFrames_leaves (I := fun _ hs' => mass w hs' ≤ mass w hs)
    (fun _ _ h _ _ => h) ?_ le_rfl
  intro isFirst t frame hs' s' h _
  refine (decodeFrame_consumed isFirst t frame _).mono ?_ fun _ _ h => h
  rintro hs'' s'' ⟨⟨logits, hfollowing⟩, hconsumed⟩
  exact ⟨(mass_following_le hw hfollowing).trans h, hconsumed⟩

/-- From one frame to the next. -/
theorem mass_concat_le (hw : Conserving w) {isFirst : Bool} {frames : List (List S)}
    {frame : List S} {hs₁ hs₂ : Hypotheses S} {s₁ s₂ : Session σ S}
    (h₁ : decodeFrames net b none isFirst t frames hs s = .ok hs₁ s₁)
    (h₂ : decodeFrames net b none isFirst t (frames ++ [frame]) hs s = .ok hs₂ s₂) :
    mass w hs₂ ≤ mass w hs₁ := by
  induction frames generalizing isFirst t hs s with
  | nil =>
      have hrun : Leaves (decodeFrames net b none isFirst t [frame] hs) s _ _ :=
        decodeFrames_mass hw isFirst t [frame] hs
      cases h₁
      exact (hrun.of_ok h₂).1
  | cons first frames ih =>
      rw [List.cons_append, decodeFrames] at h₂
      rw [decodeFrames] at h₁
      cases htop : hs.top b.width with
      | nil =>
          rw [htop] at h₁ h₂
          cases h₁
          cases h₂
          exact le_rfl
      | cons path paths =>
          rw [htop] at h₁ h₂
          obtain ⟨hs', s', hfirst, hrest₁⟩ := bind_eq_ok h₁
          obtain ⟨hs'', s'', hfirst', hrest₂⟩ := bind_eq_ok h₂
          -- Both runs begin with the same frame, and it leaves the same session.
          cases hfirst.symm.trans hfirst'
          exact ih hrest₁ hrest₂

/-- Between two chunks: all paths together have no more than the probability of the start, and in a
next chunk never more after a frame than before it. The paths that its last frame leaves are those
that the chunk after it begins with; if there are none, then those before the chunk stay. -/
structure Lessening (w : S → ℝ≥0∞) (net : Network σ S) (b : Settings) (hs : Hypotheses S)
    (s : Session σ S) : Prop where
  hyps : s.state.hyps = some hs
  mass_le : mass w hs ≤ 1
  frames : ∀ before hs₁ s₁,
    decodeFrames net b none true s.state.frameOffset before hs s = .ok hs₁ s₁ →
      mass w hs₁ ≤ 1 ∧ ∀ frame hs₂ s₂,
        decodeFrames net b none true s.state.frameOffset (before ++ [frame]) hs s = .ok hs₂ s₂ →
          mass w hs₂ ≤ mass w hs₁
  chunk : ∀ out all s', encoderFrames out = .ok all → decode net b none out s = .ok () s' →
    ∃ hs₁ s₁, decodeFrames net b none true s.state.frameOffset all hs s = .ok hs₁ s₁ ∧
      (s'.state.hyps = some hs₁ ∨ hs₁.entries = [] ∧ s'.state.hyps = some hs)

theorem decode_hyps {out : Argument S} {frames : List (List S)}
    (hframes : encoderFrames out = .ok frames) (hhyps : s.state.hyps = some hs) :
    Leaves (decode net b none out) s
      (fun _ s' => ∃ hs₁ s₁,
        decodeFrames net b none true s.state.frameOffset frames hs s = .ok hs₁ s₁ ∧
        (s'.state.hyps = some hs₁ ∨ hs₁.entries = [] ∧ s'.state.hyps = some hs))
      fun _ s' => s'.state.hyps = some hs ∨ ∃ hs₁ s₁,
        decodeFrames net b none true s.state.frameOffset frames hs s = .ok hs₁ s₁ ∧
        s'.state.hyps = some hs₁ := by
  by_cases hnil : frames = []
  · subst hnil
    rw [Leaves, decode_empty hframes hhyps]
    exact ⟨hs, s, rfl, .inl hhyps⟩
  · have hrun : Leaves (decodeFrames net b none true s.state.frameOffset frames hs) s
        (fun hs₁ s' => (∃ s₁, decodeFrames net b none true s.state.frameOffset frames hs s =
          .ok hs₁ s₁) ∧ Consumed s.state s'.state)
        fun _ s' => True ∧ Consumed s.state s'.state := by
      have hconsumed : Leaves (decodeFrames net b none true s.state.frameOffset frames hs) s _ _ :=
        decodeFrames_consumed true s.state.frameOffset frames hs
      rw [Leaves]
      split
      · exact ⟨⟨_, ‹_›⟩, (hconsumed.of_ok ‹_›).2⟩
      · exact hconsumed.of_error ‹_›
    refine (decode_leaves (R := fun _ _ => True) hframes hnil hhyps hrun
      fun _ _ _ _ _ => .trivial).mono ?_ ?_
    · rintro _ s' ⟨hs₁, ⟨s₁, hframes₁⟩, ⟨hnone, hkept⟩ | ⟨h, rows, -, -, hstate⟩⟩
      · refine ⟨hs₁, s₁, hframes₁, .inr ⟨?_, hkept⟩⟩
        by_contra hne
        obtain ⟨h, hsome⟩ := exists_best hne
        rw [hnone] at hsome
        cases hsome
      · exact ⟨hs₁, s₁, hframes₁, .inl (hstate ▸ rfl)⟩
    · rintro _ s' ⟨-, hkept | ⟨hs₁, ⟨s₁, hframes₁⟩, hnew⟩⟩
      · exact .inl hkept
      · exact .inr ⟨hs₁, s₁, hframes₁, hnew⟩

theorem lessening_of_le (hw : Conserving w) (hhyps : s.state.hyps = some hs)
    (hle : mass w hs ≤ 1) : Lessening w net b hs s where
  hyps := hhyps
  mass_le := hle
  frames before hs₁ s₁ h₁ := by
    have hrun : Leaves (decodeFrames net b none true s.state.frameOffset before hs) s _ _ :=
      decodeFrames_mass hw true s.state.frameOffset before hs
    exact ⟨(hrun.of_ok h₁).1.trans hle, fun _ _ _ h₂ => mass_concat_le hw h₁ h₂⟩
  chunk out all s' hall hdecode := by
    have hrun : Leaves (decode net b none out) s _ _ := decode_hyps hall hhyps
    exact hrun.of_ok hdecode

theorem decode_lessening (hw : Conserving w) (out : Argument S) (h : Lessening w net b hs s) :
    Leaves (decode net b none out) s (fun _ s' => ∃ hs', Lessening w net b hs' s')
      fun _ s' => ∃ hs', Lessening w net b hs' s' := by
  cases hframes : encoderFrames out with
  | error e =>
      have herror : decode net b none out s = .error e s :=
        Method.decode_of_error (.beam b) hframes
      rw [Leaves, herror]
      exact ⟨hs, h⟩
  | ok frames =>
      refine (decode_hyps hframes h.hyps).mono ?_ ?_
      · rintro _ s' ⟨hs₁, s₁, h₁, hnew | ⟨-, hkept⟩⟩
        · exact ⟨hs₁, lessening_of_le hw hnew (h.frames frames hs₁ s₁ h₁).1⟩
        · exact ⟨hs, lessening_of_le hw hkept h.mass_le⟩
      · rintro _ s' (hkept | ⟨hs₁, s₁, h₁, hnew⟩)
        · exact ⟨hs, lessening_of_le hw hkept h.mass_le⟩
        · exact ⟨hs₁, lessening_of_le hw hnew (h.frames frames hs₁ s₁ h₁).1⟩

theorem decodeChunks_lessening (hw : Conserving w) (outs : List (Argument S))
    (h : Lessening w net b hs s) :
    Leaves (decodeChunks net b none outs) s (fun _ s' => ∃ hs', Lessening w net b hs' s')
      fun _ s' => ∃ hs', Lessening w net b hs' s' := by
  induction outs generalizing hs s with
  | nil => exact .pure ⟨hs, h⟩
  | cons out outs ih =>
      refine .bind (decode_lessening hw out h) ?_
      rintro _ s' ⟨hs', h'⟩
      exact ih h'

/-- A search begins with a single path, which is certain. -/
theorem lessening_start (hw : Conserving w) (network : σ) (kept : Option (List (List S))) :
    ∃ hs, Lessening w net b hs ⟨network, { start net b with prediction := kept }⟩ := by
  refine ⟨_, lessening_of_le hw rfl ?_⟩
  simp [mass, Hypotheses.ofList, Hypotheses.add, Hypotheses.addTo, hw.zero]

end

/-- Without hotwords, the paths of a beam have at most the probability one together after every
frame, and never more than after the frame before. This holds of scores that may be infinite, for
any networks, widths and rules to merge paths, and after chunks that fail. Prediction rows that a
search starts with make no difference. -/
theorem decodeChunks_mass (net : Network σ EReal) (b : Settings) (outs : List (Argument EReal))
    (network : σ) (kept : Option (List (List EReal))) :
    Leaves (decodeChunks net b none outs) ⟨network, { start net b with prediction := kept }⟩
      (fun _ s => ∃ hs, Lessening EReal.exp net b hs s)
      fun _ s => ∃ hs, Lessening EReal.exp net b hs s := by
  obtain ⟨hs, h⟩ : ∃ hs, Lessening EReal.exp net b hs
      ⟨network, { start net b with prediction := kept }⟩ :=
    lessening_start conserving_exp network kept
  exact decodeChunks_lessening conserving_exp outs h

theorem decodeChunks_mass_two_chunks :
    let net := addingNetwork (fun n : Int => ((n : ℝ) : EReal)) 4
    let b : Settings := ⟨2, .logSumExp⟩
    let outs : List (Argument EReal) :=
      [.array { shape := [1, 2, 4], data := #[0, 1, 2, 3, 1, 0, 0, 1] },
        .array { shape := [1, 1, 4], data := #[0, 0, 1, -1] }]
    ∃ s hs, decodeChunks net b none outs ⟨(), start net b⟩ = .ok () s ∧
      s.state.hyps = some hs ∧ mass EReal.exp hs ≤ 1 ∧
      ∀ frame hs' s', decodeFrames net b none true s.state.frameOffset [frame] hs s = .ok hs' s' →
        mass EReal.exp hs' ≤ mass EReal.exp hs := by
  intro net b outs
  have hnet : net.Responding 4 := addingNetwork_responding _ (by decide) (by decide)
  have hgraph : Anchored (none : Option (Hotword.Graph EReal)) := fun g hg => by cases hg
  have houts : Chunks outs _ := .cons rfl (.cons rfl .nil)
  obtain ⟨_, s, hrun, -⟩ :=
    decodeChunks_yields (b := b) (s := ⟨(), start net b⟩) hnet hgraph houts
      (sound_start hgraph none)
  obtain ⟨hs, h⟩ := (decodeChunks_mass net b outs () none).of_ok hrun
  exact ⟨s, hs, hrun, h.hyps, h.mass_le, (h.frames [] hs s rfl).2⟩

/-- The same of finite scores. -/
theorem decodeChunks_mass_finite (net : Network σ ℝ) (b : Settings) (outs : List (Argument ℝ))
    (network : σ) (kept : Option (List (List ℝ))) :
    Leaves (decodeChunks net b none outs) ⟨network, { start net b with prediction := kept }⟩
      (fun _ s => ∃ hs, Lessening (fun x : ℝ => EReal.exp x) net b hs s)
      fun _ s => ∃ hs, Lessening (fun x : ℝ => EReal.exp x) net b hs s := by
  obtain ⟨hs, h⟩ : ∃ hs, Lessening (fun x : ℝ => EReal.exp x) net b hs
      ⟨network, { start net b with prediction := kept }⟩ :=
    lessening_start conserving_exp_coe network kept
  exact decodeChunks_lessening conserving_exp_coe outs h

end SpeechTransducer.Search.Beam
