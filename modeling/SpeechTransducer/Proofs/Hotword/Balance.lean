import Mathlib.Algebra.Order.BigOperators.Group.Finset
import Mathlib.Algebra.Order.Ring.Rat
import Mathlib.Tactic.Abel
import SpeechTransducer.Proofs.Hotword.Accumulation
import SpeechTransducer.Proofs.Hotword.Outputs

/-!
Rewards along a walk when all phrases are worth the same. What has been paid is what the completed
phrases are worth and what the unfinished match has collected; the first part is what a scan of the
tokens grants that knows nothing of the graph.
-/

namespace SpeechTransducer.Hotword

variable {phrases : List (List Int)} {u v w : List Int}

/-- Whether a phrase ends a sequence. -/
def Completes (phrases : List (List Int)) (w : List Int) : Prop := ∃ p ∈ phrases, p ≠ [] ∧ p <:+ w

instance (phrases : List (List Int)) (w : List Int) : Decidable (Completes phrases w) :=
  inferInstanceAs (Decidable (∃ p ∈ phrases, p ≠ [] ∧ p <:+ w))

/-- The number of tokens of all the phrases that end a sequence, each phrase counted once. -/
def completed (phrases : List (List Int)) (w : List Int) : Nat :=
  ∑ p ∈ phrases.toFinset with p <:+ w, p.length

/-- The tokens read since the last cut, and the number of tokens granted at the cuts. -/
structure Scan where
  segment : List Int := []
  granted : Nat := 0

/-- One token more. Where a phrase ends there is a cut, and all phrases that end there are granted
at once. -/
def Scan.read (phrases : List (List Int)) (scan : Scan) (t : Int) : Scan :=
  let segment := scan.segment ++ [t]
  if Completes phrases segment then ⟨[], scan.granted + completed phrases segment⟩
  else { scan with segment }

def scan (phrases : List (List Int)) (w : List Int) : Scan := w.foldl (Scan.read phrases) {}

theorem scan_concat (phrases : List (List Int)) (w : List Int) (t : Int) :
    scan phrases (w ++ [t]) = (scan phrases w).read phrases t := by
  rw [scan, List.foldl_append, ← scan]
  rfl

/-- Only phrases with a token count. -/
theorem completed_congr (h : ∀ p, IsPhrase phrases p → (p <:+ u ↔ p <:+ v)) :
    completed phrases u = completed phrases v := endingSum_congr rfl h

theorem completed_eq_zero (h : ∀ p, p <:+ u → ¬IsPhrase phrases p) : completed phrases u = 0 :=
  endingSum_eq_zero rfl h

theorem completed_pos (h : Completes phrases w) : 0 < completed phrases w := by
  obtain ⟨p, hp, hne, hsuffix⟩ := h
  refine lt_of_lt_of_le (List.length_pos_iff.mpr hne) ?_
  exact Finset.single_le_sum (fun _ _ => Nat.zero_le _)
    (Finset.mem_filter.mpr ⟨List.mem_toFinset.mpr hp, hsuffix⟩)

section

variable {S : Type}

theorem map_common (phrases : List (List Int)) (s : S) :
    (phrases.map (·, s)).map (·.1) = phrases := by
  simp [Function.comp_def]

variable [AddCommGroup S] [LinearOrder S] {s : S} {g : Graph S}
variable {paths : List (List Int)} {i : Nat}

theorem endingSum_common (phrases : List (List Int)) (s : S) (w : List Int) :
    endingSum (collected (phrases.map (·, s))) phrases w = completed phrases w • s := by
  rw [endingSum, completed, ← Finset.sum_nsmul_assoc]
  apply Finset.sum_congr rfl
  intro p hp
  rw [Finset.mem_filter, List.mem_toFinset] at hp
  apply collected_common (by simp)
  exact fun _ => ⟨(p, s), List.mem_map_of_mem hp.1, List.prefix_refl p⟩

namespace Arena.Complete

theorem tokenScore_common (h : Complete (phrases.map (·, s)) g.nodes paths)
    (hi : paths[i]? = some u) (hu : u ≠ []) : (g.nodes.node i).tokenScore = s := by
  have hbegin := (h.mem u).mp (List.mem_of_getElem? hi)
  have hreward := reward?_common (s := s) (by simp) (exists_phrase hbegin hu)
  exact Option.some.inj ((h.tokenScore hi hu).symm.trans hreward)

theorem nodeScore_common (h : Complete (phrases.map (·, s)) g.nodes paths)
    (hi : paths[i]? = some u) : (g.nodes.node i).nodeScore = u.length • s := by
  rw [h.nodeScore hi]
  apply collected_common (by simp)
  exact exists_phrase ((h.mem u).mp (List.mem_of_getElem? hi))

theorem outputScore_common (h : Complete (phrases.map (·, s)) g.nodes paths)
    (hi : paths[i]? = some u) : (g.nodes.node i).outputScore = completed phrases u • s := by
  rw [h.outputScore hi, map_common, endingSum_common]

theorem accumulates_common (h : Complete (phrases.map (·, s)) g.nodes paths) : Accumulates g := by
  intro i hi x hx
  obtain ⟨u, hu⟩ := h.exists_path hi
  have hc := (h.next hu x.1 x.2).mp hx
  rw [h.tokenScore_common hc (by simp), h.nodeScore_common hc, h.nodeScore_common hu,
    List.length_append, List.length_singleton, add_nsmul, one_nsmul]

end Arena.Complete

/-- What holds of a walk and of the scan of the same tokens. -/
structure Balanced (phrases : List (List Int)) (s : S) (nodes : Arena S) (paths : List (List Int))
    (scan : Scan) (i : Nat) (paid : S) : Prop where
  node : ∃ u, paths[i]? = some u ∧ LongestEnding (IsBeginning phrases) scan.segment u
  paid : paid = scan.granted • s + (nodes.node i).nodeScore

theorem Balanced.step [IsOrderedAddMonoid S] {scan : Scan} {paid : S}
    (hb : Balanced phrases s g.nodes paths scan i paid)
    (h : Arena.Complete (phrases.map (·, s)) g.nodes paths) (hs : 0 < s) (t : Int) :
    Balanced phrases s g.nodes paths (scan.read phrases t) (g.step false i t).2
      (paid + (g.step false i t).1) := by
  obtain ⟨⟨u, hu, hlong⟩, hpaid⟩ := hb
  obtain ⟨v, hv, hvlong⟩ := h.advance hu t
  rw [map_common] at hvlong
  have hseg : LongestEnding (IsBeginning phrases) (scan.segment ++ [t]) v :=
    hlong.concat (fun hx => isBeginning_of_prefix hx (List.prefix_append _ _)) hvlong
  have hcompleted : completed phrases v = completed phrases (scan.segment ++ [t]) :=
    completed_congr fun p hp => hseg.suffix_iff hp
  have hpays := h.advance_pays h.accumulates_common hu t
  have hout := h.outputScore_common hv
  rw [hcompleted] at hout
  simp only [Graph.step, Bool.false_eq_true, if_false, Graph.releasingStep, hpays, hpaid]
  by_cases hcut : Completes phrases (scan.segment ++ [t])
  · have hne : (g.nodes.node (g.advance i t).2).outputScore ≠ 0 := by
      rw [hout]
      exact (nsmul_pos hs (completed_pos hcut).ne').ne'
    rw [Scan.read, if_pos hcut, if_neg (by simpa using hne)]
    refine ⟨⟨[], h.root, LongestEnding.nil_iff.mpr ⟨rfl, isBeginning_nil _⟩⟩, ?_⟩
    have hroot := h.nodeScore_common h.root
    dsimp only [Graph.root]
    rw [hroot, hout, add_nsmul, List.length_nil, zero_nsmul]
    abel
  · have hzero : (g.nodes.node (g.advance i t).2).outputScore = 0 := by
      rw [hout, completed_eq_zero, zero_nsmul]
      exact fun p hp hp' => hcut ⟨p, hp'.2, hp'.1, hp⟩
    rw [Scan.read, if_neg hcut, if_pos (by simpa using hzero)]
    refine ⟨⟨v, hv, hseg⟩, ?_⟩
    dsimp only
    rw [hzero]
    abel

theorem balanced_walk [IsOrderedAddMonoid S] (h : Arena.Complete (phrases.map (·, s)) g.nodes paths)
    (hs : 0 < s) (w : List Int) :
    Balanced phrases s g.nodes paths (scan phrases w) (g.arrive false w)
      ((g.walk false Graph.root w).map (·.1)).sum := by
  induction w using List.reverseRecOn with
  | nil =>
      refine ⟨⟨[], h.root, LongestEnding.nil_iff.mpr ⟨rfl, isBeginning_nil _⟩⟩, ?_⟩
      have hroot := h.nodeScore_common h.root
      simp [Graph.walk, Graph.arrive, Graph.root, scan, hroot]
  | append_singleton w t ih =>
      have hstep := ih.step h hs t
      rw [scan_concat, Graph.arrive_concat, Graph.walk_concat, List.map_append, List.sum_append]
      simpa [Graph.arrive] using hstep

/-- Walks that return to the root where they complete a phrase. The walk is where the scan says,
and all that has been paid, the unfinished match taken back, is what the scan has granted. -/
theorem walk_grants [IsOrderedAddMonoid S] (phrases : List (List Int)) (hs : 0 < s) :
    ∃ g, Graph.ofPhrases phrases s none = .ok g ∧ ∀ w,
      (∃ u, LongestEnding (IsBeginning phrases) (scan phrases w).segment u ∧
        ∀ v, g.find? v = some (g.arrive false w) ↔ v = u) ∧
      ((g.walk false Graph.root w).map (·.1)).sum + (g.finish (g.arrive false w)).1 =
        (scan phrases w).granted • s := by
  obtain ⟨paths, h⟩ := Arena.complete_ofWeighted (phrases.map (·, s))
  refine ⟨_, rfl, fun w => ?_⟩
  obtain ⟨⟨u, hu, hlong⟩, hpaid⟩ := balanced_walk h hs w
  refine ⟨⟨u, hlong, fun v => ?_⟩, ?_⟩
  · rw [h.find?_iff, hu, Option.some_inj, eq_comm]
  · rw [hpaid, Graph.finish, add_neg_cancel_right]

theorem walk_grants_overlapping :
    ∃ g, Graph.ofPhrases [[5, 6], [6], [6, 7]] (3 / 2 : ℚ) none = .ok g ∧
      ((g.walk false Graph.root [5, 6, 5]).map (·.1)).sum +
        (g.finish (g.arrive false [5, 6, 5])).1 = 3 • (3 / 2 : ℚ) := by
  have hgranted : (scan [[5, 6], [6], [6, 7]] [5, 6, 5]).granted = 3 := by decide
  obtain ⟨g, hg, hwalk⟩ :=
    walk_grants [[5, 6], [6], [6, 7]] (s := (3 / 2 : ℚ)) (by decide +kernel)
  rw [← hgranted]
  exact ⟨g, hg, (hwalk [5, 6, 5]).2⟩

end

end SpeechTransducer.Hotword
