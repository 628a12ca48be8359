import SpeechTransducer.Proofs.Hotword.Balance

/-!
Walks that are never sent back to the root. In a graph whose nodes have collected the rewards on
their way, what a walk has been paid is what its node has collected and, for every position it went
through, what the phrases that end there have collected: overlapping occurrences count, and nested
ones. When all phrases are worth the same that is a multiple of the number of tokens they have.
-/

namespace SpeechTransducer.Hotword

section

variable {M : Type} [AddCommMonoid M]

/-- The sum of a weight over all occurrences of phrases in a sequence: at every position, over the
phrases that end there. -/
def occurrenceSum (f : List Int → M) (phrases : List (List Int)) (w : List Int) : M :=
  ∑ k ∈ Finset.range w.length, endingSum f phrases (w.take (k + 1))

theorem occurrenceSum_concat (f : List Int → M) (phrases : List (List Int)) (w : List Int)
    (t : Int) :
    occurrenceSum f phrases (w ++ [t]) =
      occurrenceSum f phrases w + endingSum f phrases (w ++ [t]) := by
  rw [occurrenceSum, List.length_append, List.length_singleton, Finset.sum_range_succ,
    List.take_of_length_le (by simp)]
  congr 1
  apply Finset.sum_congr rfl
  intro k hk
  rw [List.take_append_of_le_length (Finset.mem_range.mp hk)]

end

variable {S : Type} [AddCommGroup S] [LinearOrder S]

namespace Arena.Complete

variable [BEq S] {phrases : List (List Int × S)} {g : Graph S} {paths : List (List Int)}

/-- Where a walk arrives all phrases end that end what it has read. -/
theorem outputScore_arrive (h : Complete phrases g.nodes paths) (w : List Int) :
    (g.nodes.node (g.arrive true w)).outputScore =
      endingSum (collected phrases) (phrases.map (·.1)) w := by
  obtain ⟨u, hu, hlong⟩ := h.arrive_strict w
  rw [h.outputScore hu]
  exact endingSum_congr collected_nil fun p hp => hlong.suffix_iff hp

theorem step_strict_pays (h : Complete phrases g.nodes paths) (hacc : Accumulates g)
    (w : List Int) (t : Int) :
    (g.step true (g.arrive true w) t).1 =
      (g.nodes.node (g.arrive true (w ++ [t]))).nodeScore -
        (g.nodes.node (g.arrive true w)).nodeScore +
          endingSum (collected phrases) (phrases.map (·.1)) (w ++ [t]) := by
  obtain ⟨u, hu, -⟩ := h.arrive_strict w
  rw [← h.outputScore_arrive, Graph.arrive_concat]
  simp only [Graph.step, if_true, Graph.strictStep, h.advance_pays hacc hu t]

/-- What a walk has been paid. -/
theorem sum_walk_strict (h : Complete phrases g.nodes paths) (hacc : Accumulates g)
    (w : List Int) :
    ((g.walk true Graph.root w).map (·.1)).sum =
      occurrenceSum (collected phrases) (phrases.map (·.1)) w +
        (g.nodes.node (g.arrive true w)).nodeScore := by
  induction w using List.reverseRecOn with
  | nil =>
      have hroot := h.nodeScore h.root
      simp [Graph.walk, Graph.arrive, Graph.root, occurrenceSum, hroot, collected_nil]
  | append_singleton w t ih =>
      have hstep := h.step_strict_pays hacc w t
      rw [Graph.walk_concat, List.map_append, List.sum_append, ih, occurrenceSum_concat]
      rw [List.map_singleton, List.sum_singleton, ← Graph.arrive, hstep]
      abel

end Arena.Complete

theorem occurrenceSum_common (phrases : List (List Int)) (s : S) (w : List Int) :
    occurrenceSum (collected (phrases.map (·, s))) phrases w =
      occurrenceSum List.length phrases w • s := by
  simp only [occurrenceSum, endingSum_common, Finset.sum_nsmul_assoc]
  rfl

variable [BEq S]

/-- When all phrases are worth the same, a walk through strict steps and the end of an unfinished
match together pay every occurrence of every phrase once, overlapping and nested ones too. -/
theorem walk_pays_occurrences (phrases : List (List Int)) (score : S) (scores : Option (List S))
    (hcount : Counted phrases scores) {s : S} (hs : ∀ p ∈ weigh phrases score scores, p.2 = s) :
    ∃ g, Graph.ofPhrases phrases score scores = .ok g ∧ ∀ w,
      ((g.walk true Graph.root w).map (·.1)).sum + (g.finish (g.arrive true w)).1 =
        occurrenceSum List.length phrases w • s := by
  have hok := Graph.ofPhrases_eq_ok score hcount
  rw [weigh_common hcount hs] at hok
  obtain ⟨paths, h⟩ := Arena.complete_ofWeighted (phrases.map (·, s))
  refine ⟨_, hok, fun w => ?_⟩
  rw [h.sum_walk_strict h.accumulates_common, Graph.finish, map_common, occurrenceSum_common,
    add_neg_cancel_right]

/-- One phrase occurs three times, twice as the end of another one. -/
theorem walk_pays_occurrences_nested :
    Counted [[5], [5, 5], [6, 5]] (some [(0 : ℚ), -1 / 2, 0]) ∧
      (∀ p ∈ weigh [[5], [5, 5], [6, 5]] (-1 / 2 : ℚ) (some [0, -1 / 2, 0]), p.2 = -1 / 2) ∧
      ∃ g, Graph.ofPhrases [[5], [5, 5], [6, 5]] (-1 / 2 : ℚ) (some [0, -1 / 2, 0]) = .ok g ∧
        ((g.walk true Graph.root [5, 5, 6, 5]).map (·.1)).sum +
          (g.finish (g.arrive true [5, 5, 6, 5])).1 = 7 • (-1 / 2 : ℚ) := by
  have hcount : Counted [[5], [5, 5], [6, 5]] (some [(0 : ℚ), -1 / 2, 0]) := by decide
  have hs : ∀ p ∈ weigh [[5], [5, 5], [6, 5]] (-1 / 2 : ℚ) (some [0, -1 / 2, 0]),
      p.2 = -1 / 2 := by decide +kernel
  have hoccur : occurrenceSum List.length [[5], [5, 5], [6, 5]] [5, 5, 6, 5] = 7 := by decide
  obtain ⟨g, hg, hwalk⟩ := walk_pays_occurrences _ _ _ hcount hs
  rw [← hoccur]
  exact ⟨hcount, hs, g, hg, hwalk [5, 5, 6, 5]⟩

end SpeechTransducer.Hotword
