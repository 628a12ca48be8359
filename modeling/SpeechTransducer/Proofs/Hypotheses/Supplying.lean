import SpeechTransducer.Proofs.Hypotheses.Summing

/-!
Where merged paths have their details from, if their probabilities are summed up. Every path is
compared with the sum of those before it, and not with each of them: the details are those of the
last path that is more probable than all before it together. Three paths are enough for the
strongest one to be passed over. Whatever the details are, they come from a strongest path exactly
if the first one of the strongest outweighs those before it.
-/

namespace SpeechTransducer

/-- What a path carries beside its tokens and its score. -/
def Hypothesis.details {S : Type} (h : Hypothesis S) : List Int × Int × Option Int :=
  (h.timestamps, h.trailingBlanks, h.contextState)

namespace Hypotheses

variable {paths new new' : List (Hypothesis ℝ)} {e g h k : Hypothesis ℝ}

/-- A path that is more probable than some others together. -/
def Outweighs (h : Hypothesis ℝ) (others : List (Hypothesis ℝ)) : Prop :=
  (others.map fun g => Real.exp g.score).sum < Real.exp h.score

theorem Outweighs.score_lt (hout : Outweighs h paths) (hg : g ∈ paths) : g.score < h.score := by
  have hnonneg : ∀ x ∈ paths.map fun g => Real.exp g.score, 0 ≤ x := by
    intro x hx
    obtain ⟨g, -, rfl⟩ := List.mem_map.mp hx
    exact (Real.exp_pos _).le
  exact Real.exp_lt_exp.mp
    ((List.single_le_sum hnonneg _ (List.mem_map_of_mem hg)).trans_lt hout)

/-- The last one of some paths that outweighs those before it. -/
inductive LastToOutweigh (k : Hypothesis ℝ) : List (Hypothesis ℝ) → Prop
  | last {before : List (Hypothesis ℝ)} : Outweighs k before → LastToOutweigh k (before ++ [k])
  | earlier {paths : List (Hypothesis ℝ)} {h : Hypothesis ℝ} :
      LastToOutweigh k paths → ¬Outweighs h paths → LastToOutweigh k (paths ++ [h])

theorem LastToOutweigh.mem (hk : LastToOutweigh k paths) : k ∈ paths := by
  induction hk with
  | last _ => exact List.mem_append_right _ List.mem_cons_self
  | earlier _ _ ih => exact List.mem_append_left _ ih

/-- The first one of the largest scores is more probable than those before it together. -/
def LargestOutweighs (scores : List ℝ) : Prop :=
  ∃ before x after, scores = before ++ x :: after ∧ (∀ y ∈ before, y < x) ∧
    (∀ y ∈ after, y ≤ x) ∧ (before.map Real.exp).sum < Real.exp x

theorem largestOutweighs_concat {scores : List ℝ} {x : ℝ}
    (hnot : ¬(scores.map Real.exp).sum < Real.exp x) :
    LargestOutweighs (scores ++ [x]) ↔ LargestOutweighs scores ∧ ∃ y ∈ scores, x ≤ y := by
  constructor
  · rintro ⟨before, y, after, hsplit, hbefore, hafter, hsum⟩
    obtain rfl | ⟨after, z, rfl⟩ := List.eq_nil_or_concat' after
    · obtain ⟨rfl, hlast⟩ := List.append_inj' hsplit rfl
      obtain rfl := List.head_eq_of_cons_eq hlast
      exact absurd hsum hnot
    · rw [← List.cons_append, ← List.append_assoc] at hsplit
      obtain ⟨rfl, hlast⟩ := List.append_inj' hsplit rfl
      obtain rfl := List.head_eq_of_cons_eq hlast
      refine ⟨⟨before, y, after, rfl, hbefore, ?_, hsum⟩, y, by simp, ?_⟩
      · exact fun w hw => hafter w (List.mem_append_left _ hw)
      · exact hafter x (List.mem_append_right _ List.mem_cons_self)
  · rintro ⟨⟨before, y, after, rfl, hbefore, hafter, hsum⟩, z, hz, hxz⟩
    have hzy : z ≤ y := by
      obtain hz | hz := List.mem_append.mp hz
      · exact (hbefore z hz).le
      · obtain rfl | hz := List.mem_cons.mp hz
        · exact le_rfl
        · exact hafter z hz
    refine ⟨before, y, after ++ [x], by simp, hbefore, ?_, hsum⟩
    intro w hw
    obtain hw | hw := List.mem_append.mp hw
    · exact hafter w hw
    · exact List.mem_singleton.mp hw ▸ hxz.trans hzy

/-- The last path to outweigh those before it may be one of the weaker ones. -/
theorem LastToOutweigh.strongest_iff (hk : LastToOutweigh k paths) :
    (∀ g ∈ paths, g.score ≤ k.score) ↔ LargestOutweighs (paths.map (·.score)) := by
  -- A path that does not outweigh those before it breaks both sides if it is stronger than `k`.
  induction hk with
  | @last before hout =>
      refine iff_of_true ?_ ⟨before.map (·.score), k.score, [], by simp, ?_, by simp, ?_⟩
      · intro g hg
        obtain hg | hg := List.mem_append.mp hg
        · exact (hout.score_lt hg).le
        · rw [List.mem_singleton.mp hg]
      · intro y hy
        obtain ⟨g, hg, rfl⟩ := List.mem_map.mp hy
        exact hout.score_lt hg
      · rwa [List.map_map]
  | @earlier paths h hk hnot ih =>
      have hnot : ¬((paths.map (·.score)).map Real.exp).sum < Real.exp h.score := by
        rwa [List.map_map]
      rw [List.map_append, List.map_singleton, largestOutweighs_concat hnot, ← ih,
        List.forall_mem_append, List.forall_mem_singleton]
      refine and_congr_right fun hall => ⟨fun hle => ⟨_, List.mem_map_of_mem hk.mem, hle⟩, ?_⟩
      rintro ⟨y, hy, hle⟩
      obtain ⟨g, hg, rfl⟩ := List.mem_map.mp hy
      exact hle.trans (hall g hg)

theorem exp_score_merged (hmerged : merged .logSumExp paths = some e) :
    Real.exp e.score = (paths.map fun h => Real.exp h.score).sum := by
  refine weight_merged (fun x y => ?_) hmerged
  rw [logAdd_eq_log, Real.exp_log (by positivity)]

/-- A path that is merged into others supplies the details if it outweighs them. -/
theorem lastToOutweigh_merged (hmerged : merged .logSumExp paths = some e) :
    ∃ k, LastToOutweigh k paths ∧ k.details = e.details := by
  refine merged_induction (P := fun paths e => ∃ k, LastToOutweigh k paths ∧ k.details = e.details)
    ?_ ?_ hmerged
  · intro h
    have hout : Outweighs h [] := by simp [Outweighs, Real.exp_pos]
    exact ⟨h, .last hout, rfl⟩
  · rintro paths e h hmerged ⟨k, hk, hdetails⟩
    have hout : e.score < h.score ↔ Outweighs h paths := by
      rw [Outweighs, ← exp_score_merged hmerged, Real.exp_lt_exp]
    have hcombine : (combine .logSumExp e h).details = (stronger e h).details := rfl
    rw [hcombine, stronger]
    split
    · exact ⟨h, .last (hout.mp ‹_›), rfl⟩
    · exact ⟨k, .earlier hk (hout.not.mp ‹_›), hdetails⟩

/-- Paths with the same tokens and scores as others, whatever their details. -/
def Alike (new new' : List (Hypothesis ℝ)) : Prop :=
  new.map (fun h => (h.tokens, h.score)) = new'.map fun h => (h.tokens, h.score)

theorem Alike.tokens (halike : Alike new new') : new.map (·.tokens) = new'.map (·.tokens) := by
  have h := congrArg (List.map Prod.fst) halike
  rwa [List.map_map, List.map_map] at h

theorem Alike.scores (halike : Alike new new') (tokens : List Int) :
    (new.filter fun h => h.tokens = tokens).map (·.score) =
      (new'.filter fun h => h.tokens = tokens).map (·.score) := by
  have h := congrArg (fun ps => (ps.filter fun p => p.1 = tokens).map Prod.snd) halike
  simpa only [List.filter_map, List.map_map, Function.comp_def] using h

/-- The paths with their positions for timestamps. -/
def numbered (new : List (Hypothesis ℝ)) : List (Hypothesis ℝ) :=
  new.zipIdx.map fun p => { p.1 with timestamps := [(p.2 : Int)] }

theorem alike_numbered (new : List (Hypothesis ℝ)) : Alike (numbered new) new := by
  calc (numbered new).map (fun h => (h.tokens, h.score))
      = (new.zipIdx.map Prod.fst).map fun h => (h.tokens, h.score) := by
        rw [numbered, List.map_map, List.map_map]
        rfl
    _ = new.map fun h => (h.tokens, h.score) := by rw [List.zipIdx_map_fst]

theorem eq_of_details_numbered (hg : g ∈ numbered new) (hh : h ∈ numbered new)
    (hdetails : g.details = h.details) : g = h := by
  obtain ⟨⟨path, i⟩, hpath, rfl⟩ := List.mem_map.mp hg
  obtain ⟨⟨path', j⟩, hpath', rfl⟩ := List.mem_map.mp hh
  obtain rfl : i = j := by simpa [Hypothesis.details] using congrArg Prod.fst hdetails
  rw [List.mem_zipIdx_iff_getElem?] at hpath hpath'
  obtain rfl := Option.some.inj (hpath.symm.trans hpath')
  rfl

/-- What is stored for some tokens has its details from a strongest path with these tokens. -/
def StrongestSupplies (new : List (Hypothesis ℝ)) : Prop :=
  ∀ e ∈ (ofList .logSumExp new).entries, ∃ h ∈ new, h.tokens = e.tokens ∧
    (∀ g ∈ new, g.tokens = e.tokens → g.score ≤ h.score) ∧ h.details = e.details

theorem exists_supplier (he : e ∈ (ofList .logSumExp new).entries) :
    ∃ k, LastToOutweigh k (new.filter fun h => h.tokens = e.tokens) ∧ k.details = e.details :=
  lastToOutweigh_merged (groups_ofList.entry e he)

/-- The details stored for some tokens are those of the last path with these tokens that outweighs
those before it. They are those of a strongest one, whatever the details of the paths are, exactly
if for all tokens the first one of the strongest paths outweighs those before it. -/
theorem details_ofList_logSumExp (new : List (Hypothesis ℝ)) :
    (∀ e ∈ (ofList .logSumExp new).entries, ∃ k,
        LastToOutweigh k (new.filter fun h => h.tokens = e.tokens) ∧ k.details = e.details) ∧
      ((∀ new', Alike new' new → StrongestSupplies new') ↔
        ∀ h ∈ new, LargestOutweighs ((new.filter fun g => g.tokens = h.tokens).map (·.score))) := by
  refine ⟨fun e he => exists_supplier he, ?_, ?_⟩
  · intro hall h hh
    -- Among numbered paths, equal details are those of the same path.
    have halike := alike_numbered new
    obtain ⟨h', hh', hsame⟩ := List.mem_map.mp (halike.tokens ▸ List.mem_map_of_mem hh)
    obtain ⟨e, ⟨he, htokens⟩, -⟩ : ∃! e, e ∈ (ofList .logSumExp (numbered new)).entries ∧
      e.tokens = h'.tokens := groups_ofList.once h' hh'
    obtain ⟨k, hk, hsupplies⟩ := exists_supplier he
    obtain ⟨g, hg, -, hstrongest, hdetails⟩ := hall _ halike e he
    obtain rfl : g = k := eq_of_details_numbered hg (List.mem_of_mem_filter hk.mem)
      (hdetails.trans hsupplies.symm)
    rw [← hsame, ← htokens, ← halike.scores]
    refine hk.strongest_iff.mp fun f hf => ?_
    obtain ⟨hf, hsame⟩ := List.mem_filter.mp hf
    exact hstrongest f hf (of_decide_eq_true hsame)
  · intro hall new' halike e he
    obtain ⟨k, hk, hsupplies⟩ := exists_supplier he
    obtain ⟨hmem, hkept⟩ := List.mem_filter.mp hk.mem
    have htokens : k.tokens = e.tokens := of_decide_eq_true hkept
    obtain ⟨h, hh, hsame⟩ := List.mem_map.mp (halike.tokens ▸ List.mem_map_of_mem hmem)
    have hlargest := hall h hh
    rw [hsame, htokens, ← halike.scores] at hlargest
    have hstrongest := hk.strongest_iff.mpr hlargest
    refine ⟨k, hmem, htokens, fun g hg heq => ?_, hsupplies⟩
    exact hstrongest g (List.mem_filter.mpr ⟨hg, decide_eq_true heq⟩)

/-- The last one of three paths is the strongest, and the first two are more probable together. -/
theorem not_strongestSupplies :
    let first : Hypothesis ℝ := { tokens := [0, 0, 7], score := -2, timestamps := [1] }
    let second : Hypothesis ℝ := { tokens := [0, 0, 7], score := -2, timestamps := [2] }
    let third : Hypothesis ℝ := { tokens := [0, 0, 7], score := -3 / 2, timestamps := [3] }
    ¬StrongestSupplies [first, second, third] := by
  intro first second third hall
  let both := combine .logSumExp first second
  have hentries : (ofList .logSumExp [first, second, third]).entries =
      [combine .logSumExp both third] := rfl
  have hboth : both.score = Real.log 2 - 2 := by
    calc both.score = Real.log (Real.exp (-2) + Real.exp (-2)) := logAdd_eq_log _ _
      _ = Real.log (2 * Real.exp (-2)) := by rw [two_mul]
      _ = Real.log 2 - 2 := by
        rw [Real.log_mul two_ne_zero (Real.exp_ne_zero _), Real.log_exp, sub_eq_add_neg]
  have hle : third.score ≤ both.score := by
    have hlog := Real.one_sub_inv_le_log_of_pos (two_pos : (0 : ℝ) < 2)
    rw [hboth]
    norm_num [third] at hlog ⊢
    linarith
  have hdetails : (combine .logSumExp both third).details = first.details := by
    calc (combine .logSumExp both third).details
        = (stronger both third).details := rfl
      _ = (stronger first second).details := by rw [stronger, if_neg hle.not_gt]; rfl
      _ = first.details := by rw [stronger, if_neg (lt_irrefl _)]
  obtain ⟨h, hh, -, hstrongest, hsupplies⟩ :=
    hall _ (hentries ▸ List.mem_cons_self)
  have hthird : third.score ≤ h.score := hstrongest third (by simp) rfl
  rw [hdetails] at hsupplies
  obtain rfl | rfl | rfl : h = first ∨ h = second ∨ h = third := by simpa using hh
  · norm_num [first, third] at hthird
  · norm_num [second, third] at hthird
  · simp [first, third, Hypothesis.details] at hsupplies

end Hypotheses

end SpeechTransducer
