import Mathlib.Algebra.Order.BigOperators.Group.Finset
import Mathlib.Algebra.Order.BigOperators.Group.List
import SpeechTransducer.Proofs.Hotword.Outputs

/-!
Steps that return to the root where they complete a phrase. The step looks at the reward for phrase
ends and takes nothing for a sign that no phrase ends. That reward is a sum over all phrases that
end at the node, so it vanishes at the end of a phrase as well when their rewards cancel; only there
the step stays in the graph. Positive rewards do not cancel.
-/

namespace SpeechTransducer.Hotword

variable {S : Type}

/-- Whether a phrase ends at a node: its own sequence, or a shorter one behind the output link. -/
def Graph.EndsPhrase [Zero S] (g : Graph S) (i : Nat) : Prop :=
  (g.nodes.node i).isEnd = true ∨ (g.nodes.node i).output ≠ none

instance [Zero S] (g : Graph S) (i : Nat) : Decidable (g.EndsPhrase i) :=
  inferInstanceAs (Decidable (_ ∨ _))

section

variable [AddCommGroup S] [LinearOrder S] [IsOrderedAddMonoid S]
variable {phrases : List (List Int × S)} {u : List Int}

theorem collected_pos (hpos : ∀ p ∈ phrases, 0 < p.2) (hu : u ≠ [])
    (hbegin : ∃ p ∈ phrases, u <+: p.1) : 0 < collected phrases u := by
  obtain ⟨p, hp, hpre⟩ := hbegin
  rw [collected, ← List.sum_eq_foldl]
  refine List.sum_pos _ ?_ (by simpa [tokenRewards] using hu)
  intro r hr
  obtain ⟨k, -, rfl⟩ := List.mem_map.mp hr
  obtain ⟨q, hq⟩ := reward?_exists ⟨p, mem_upTo hp hpre, (List.take_prefix (k + 1) u).trans hpre⟩
  obtain ⟨p', hp', -, rfl⟩ := reward?_mem hq
  rw [hq, Option.getD_some]
  exact hpos p' (upTo_subset u phrases hp')

theorem endingSum_collected_pos (hpos : ∀ p ∈ phrases, 0 < p.2)
    (hends : ∃ p, IsPhrase (phrases.map (·.1)) p ∧ p <:+ u) :
    0 < endingSum (collected phrases) (phrases.map (·.1)) u := by
  have hcollected {v : List Int} (hv : IsPhrase (phrases.map (·.1)) v) :
      0 < collected phrases v := by
    obtain ⟨p, hp, rfl⟩ := List.mem_map.mp hv.2
    exact collected_pos hpos hv.1 ⟨p, hp, List.prefix_refl _⟩
  obtain ⟨p, hp, hsuffix⟩ := hends
  refine Finset.sum_pos' ?_ ⟨p, ?_, hcollected hp⟩
  · intro q hq
    rw [Finset.mem_filter, List.mem_toFinset] at hq
    by_cases hne : q = []
    · rw [hne, collected_nil]
    · exact (hcollected ⟨hne, hq.1⟩).le
  · rw [Finset.mem_filter, List.mem_toFinset]
    exact ⟨hp.2, hsuffix⟩

end

namespace Arena.Complete

section

variable [AddCommMonoid S] [LT S] [DecidableLT S]
variable {phrases : List (List Int × S)} {g : Graph S} {paths : List (List Int)}
variable {i : Nat} {u : List Int}

theorem endsPhrase_iff (h : Complete phrases g.nodes paths) (hi : paths[i]? = some u) :
    g.EndsPhrase i ↔ ∃ p, IsPhrase (phrases.map (·.1)) p ∧ p <:+ u := by
  rw [Graph.EndsPhrase, h.isEnd hi, ne_eq, h.output_eq_none_iff hi]
  constructor
  · intro hends
    obtain hself | hshorter := hends
    · exact ⟨u, hself, List.suffix_refl u⟩
    · push Not at hshorter
      obtain ⟨p, hsuffix, hp⟩ := hshorter
      exact ⟨p, hp, hsuffix.trans (List.tail_suffix u)⟩
  · intro hends
    obtain ⟨p, hp, hsuffix⟩ := hends
    cases u with
    | nil => exact absurd (List.suffix_nil.mp hsuffix) hp.1
    | cons a u =>
        obtain rfl | hsuffix := List.suffix_cons_iff.mp hsuffix
        · exact .inl hp
        · exact .inr fun hnone => hnone p hsuffix hp

theorem not_endsPhrase_root (h : Complete phrases g.nodes paths) : ¬g.EndsPhrase Graph.root := by
  intro hends
  obtain ⟨p, hp, hsuffix⟩ := (h.endsPhrase_iff h.root).mp hends
  exact hp.1 (List.suffix_nil.mp hsuffix)

theorem endsPhrase_of_pays (h : Complete phrases g.nodes paths) (hi : paths[i]? = some u)
    (hpays : endingSum (collected phrases) (phrases.map (·.1)) u ≠ 0) : g.EndsPhrase i := by
  rw [h.endsPhrase_iff hi]
  by_contra hends
  exact hpays (endingSum_eq_zero collected_nil fun p hp hp' => hends ⟨p, hp', hp⟩)

end

/-- A step returns to the root where the step that never does is at the root, or pays for phrase
ends. So it does at all phrase ends that pay. -/
theorem step_releases [AddCommGroup S] [LT S] [DecidableLT S] [BEq S] [LawfulBEq S]
    {phrases : List (List Int × S)} {g : Graph S} {paths : List (List Int)} {i : Nat}
    (h : Complete phrases g.nodes paths) (hi : i < g.size) (t : Int) :
    ∃ u, paths[(g.step true i t).2]? = some u ∧
      (((g.step false i t).2 = Graph.root ↔
          (g.step true i t).2 = Graph.root ∨ g.EndsPhrase (g.step true i t).2) ↔
        (g.EndsPhrase (g.step true i t).2 →
          endingSum (collected phrases) (phrases.map (·.1)) u ≠ 0)) := by
  obtain ⟨v, hv⟩ := h.exists_path hi
  obtain ⟨u, hu, -⟩ := h.advance hv t
  have hstrict : (g.step true i t).2 = (g.advance i t).2 := rfl
  have hrelease : (g.step false i t).2 = Graph.root ↔ (g.advance i t).2 = Graph.root ∨
      endingSum (collected phrases) (phrases.map (·.1)) u ≠ 0 := by
    rw [← h.outputScore hu, Graph.step, if_neg (by simp), Graph.releasingStep]
    dsimp only
    split
    · rename_i hzero
      rw [beq_iff_eq] at hzero
      simp only [hzero, ne_eq, not_true_eq_false, or_false]
    · rename_i hne
      rw [beq_iff_eq] at hne
      exact ⟨fun _ => .inr hne, fun _ => rfl⟩
  have hroot : (g.advance i t).2 = Graph.root → ¬g.EndsPhrase (g.advance i t).2 :=
    fun heq => heq ▸ h.not_endsPhrase_root
  have hends := h.endsPhrase_of_pays hu
  refine ⟨u, hu, ?_⟩
  rw [hstrict, hrelease]
  tauto

end Arena.Complete

namespace Graph

/-- A step returns to the root exactly where the step that never does is at the root or at the end
of a phrase, unless what the phrases that end there have collected sums to nothing. -/
theorem release_iff_endsPhrase [AddCommGroup S] [LT S] [DecidableLT S] [BEq S] [LawfulBEq S]
    (phrases : List (List Int)) (score : S) (scores : Option (List S))
    (hcount : Counted phrases scores) :
    ∃ g, ofPhrases phrases score scores = .ok g ∧ ∀ i < g.size, ∀ t,
      ∃ u, (∀ v, g.find? v = some (g.step true i t).2 ↔ v = u) ∧
        (g.EndsPhrase (g.step true i t).2 ↔ ∃ p, IsPhrase phrases p ∧ p <:+ u) ∧
        (((g.step false i t).2 = root ↔
            (g.step true i t).2 = root ∨ g.EndsPhrase (g.step true i t).2) ↔
          (g.EndsPhrase (g.step true i t).2 → endingSum g.collectedAt phrases u ≠ 0)) := by
  obtain ⟨paths, h⟩ := Arena.complete_ofWeighted (weigh phrases score scores)
  refine ⟨_, ofPhrases_eq_ok score hcount, fun i hi t => ?_⟩
  obtain ⟨u, hu, hrelease⟩ := h.step_releases hi t
  have hends := h.endsPhrase_iff hu
  rw [← h.endingSum_collectedAt] at hrelease
  rw [weigh_phrases score hcount] at hends hrelease
  exact ⟨u, h.find?_iff_eq hu, hends, hrelease⟩

theorem release_iff_endsPhrase_cancelling :
    Counted [[1], [2, 1]] (some [(1 : ℚ), -1 / 2]) ∧
      ∃ g, ofPhrases [[1], [2, 1]] (1 : ℚ) (some [1, -1 / 2]) = .ok g ∧ 2 < g.size ∧
        ∃ u, g.find? u = some (g.step true 2 1).2 ∧
          (((g.step false 2 1).2 = root ↔
              (g.step true 2 1).2 = root ∨ g.EndsPhrase (g.step true 2 1).2) ↔
            (g.EndsPhrase (g.step true 2 1).2 → endingSum g.collectedAt [[1], [2, 1]] u ≠ 0)) := by
  refine ⟨by decide, ?_⟩
  obtain ⟨g, hg, hrelease⟩ :=
    release_iff_endsPhrase [[1], [2, 1]] (1 : ℚ) (some [1, -1 / 2]) (by decide)
  have hsize : 2 < g.size := by
    rw [ofPhrases_inv hg]
    decide +kernel
  obtain ⟨u, hu, -, hiff⟩ := hrelease 2 hsize 1
  exact ⟨g, hg, hsize, u, (hu u).mpr rfl, hiff⟩

/-- The longer phrase takes back what the shorter one at its end is worth, so the step does not
return, and stays at the end of both. -/
theorem not_released_cancelled :
    ∃ g, ofPhrases [[1], [2, 1]] (1 : ℚ) (some [1, -1 / 2]) = .ok g ∧
      g.find? [2] = some 2 ∧ g.find? [2, 1] = some 3 ∧ (g.step true 2 1).2 = 3 ∧
      g.EndsPhrase 3 ∧ (g.step false 2 1).2 = 3 ∧
      ¬((g.step false 2 1).2 = root ↔
        (g.step true 2 1).2 = root ∨ g.EndsPhrase (g.step true 2 1).2) := by
  refine ⟨_, rfl, ?_⟩
  decide +kernel

/-- Positive rewards do not cancel. -/
theorem release_of_pos [AddCommGroup S] [LinearOrder S] [IsOrderedAddMonoid S] [BEq S]
    [LawfulBEq S] (phrases : List (List Int)) (score : S) (scores : Option (List S))
    (hcount : Counted phrases scores) (hpos : ∀ p ∈ weigh phrases score scores, 0 < p.2) :
    ∃ g, ofPhrases phrases score scores = .ok g ∧ ∀ i < g.size, ∀ t,
      ((g.step false i t).2 = root ↔
        (g.step true i t).2 = root ∨ g.EndsPhrase (g.step true i t).2) := by
  obtain ⟨paths, h⟩ := Arena.complete_ofWeighted (weigh phrases score scores)
  refine ⟨_, ofPhrases_eq_ok score hcount, fun i hi t => ?_⟩
  obtain ⟨u, hu, hrelease⟩ := h.step_releases hi t
  refine hrelease.mpr fun hends => ?_
  rw [h.endsPhrase_iff hu] at hends
  exact (endingSum_collected_pos hpos hends).ne'

end Graph

end SpeechTransducer.Hotword
