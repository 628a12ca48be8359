import Mathlib.Algebra.BigOperators.Group.Finset.Basic
import Mathlib.Algebra.Order.Ring.Rat
import SpeechTransducer.Proofs.Hotword.Walk

/-!
The phrases that end at a node. The output link leads to the longest of them that is shorter than
the node's own sequence. The reward for phrase ends is what all of them have collected: the node
adds its own part, and gets the rest through the link.
-/

namespace SpeechTransducer.Hotword

section

variable {M : Type} [AddCommMonoid M] {phrases : List (List Int)} {u v : List Int}
variable {f : List Int → M}

/-- The sum of a weight over the phrases that end a sequence, each phrase counted once. -/
def endingSum (f : List Int → M) (phrases : List (List Int)) (w : List Int) : M :=
  ∑ p ∈ phrases.toFinset with p <:+ w, f p

/-- If the empty phrase weighs nothing, only phrases with a token count. -/
theorem endingSum_congr (hf : f [] = 0) (h : ∀ p, IsPhrase phrases p → (p <:+ u ↔ p <:+ v)) :
    endingSum f phrases u = endingSum f phrases v := by
  rw [endingSum, endingSum, Finset.sum_filter, Finset.sum_filter]
  apply Finset.sum_congr rfl
  intro p hp
  by_cases hne : p = []
  · simp [hne, hf]
  · simp only [h p ⟨hne, List.mem_toFinset.mp hp⟩]

theorem endingSum_eq_zero (hf : f [] = 0) (h : ∀ p, p <:+ u → ¬IsPhrase phrases p) :
    endingSum f phrases u = 0 := by
  apply Finset.sum_eq_zero
  intro p hp
  rw [Finset.mem_filter, List.mem_toFinset] at hp
  have hnil : p = [] := by
    by_contra hne
    exact h p hp.2 ⟨hne, hp.1⟩
  rw [hnil, hf]

/-- A phrase comes on top of the shorter ones that end it. -/
theorem endingSum_of_isPhrase (h : IsPhrase phrases u) :
    endingSum f phrases u = f u + endingSum f phrases u.tail := by
  have hfilter : phrases.toFinset.filter (· <:+ u) =
      insert u (phrases.toFinset.filter (· <:+ u.tail)) := by
    ext p
    rw [Finset.mem_insert, Finset.mem_filter, Finset.mem_filter, List.mem_toFinset]
    cases u with
    | nil => exact absurd rfl h.1
    | cons a u =>
        rw [List.suffix_cons_iff, List.tail_cons, and_or_left]
        refine or_congr_left ⟨And.right, fun hp => ⟨hp ▸ h.2, hp⟩⟩
  have hnot : u ∉ phrases.toFinset.filter (· <:+ u.tail) := by
    intro hmem
    have hle := (Finset.mem_filter.mp hmem).2.length_le
    have hpos := List.length_pos_iff.mpr h.1
    rw [List.length_tail] at hle
    omega
  rw [endingSum, hfilter, Finset.sum_insert hnot, endingSum]

theorem endingSum_of_not_isPhrase (hf : f [] = 0) (h : ¬IsPhrase phrases u) :
    endingSum f phrases u = endingSum f phrases u.tail := by
  apply endingSum_congr hf
  intro p hp
  cases u with
  | nil => rfl
  | cons a u =>
      rw [List.suffix_cons_iff, List.tail_cons, or_iff_right]
      intro heq
      exact h (heq ▸ hp)

end

variable {S : Type}

/-- What the node of a sequence has collected; nothing if no node stands for the sequence. -/
def Graph.collectedAt [Zero S] (g : Graph S) (u : List Int) : S :=
  ((g.find? u).map fun i => (g.nodes.node i).nodeScore).getD 0

section

variable [AddCommMonoid S] [LT S] [DecidableLT S]
variable {phrases : List (List Int × S)} {g : Graph S} {paths : List (List Int)}
variable {i : Nat} {u v : List Int}

namespace Arena.Complete

theorem collectedAt (h : Complete phrases g.nodes paths)
    (hu : IsBeginning (phrases.map (·.1)) u) : g.collectedAt u = collected phrases u := by
  obtain ⟨i, hi⟩ := List.mem_iff_getElem?.mp ((h.mem u).mpr hu)
  rw [Graph.collectedAt, h.find?_iff.mpr hi, Option.map_some, Option.getD_some, h.nodeScore hi]

/-- All phrases have nodes. -/
theorem endingSum_collectedAt (h : Complete phrases g.nodes paths) (u : List Int) :
    endingSum g.collectedAt (phrases.map (·.1)) u =
      endingSum (collected phrases) (phrases.map (·.1)) u := by
  apply Finset.sum_congr rfl
  intro p hp
  rw [Finset.mem_filter, List.mem_toFinset] at hp
  exact h.collectedAt (.inr ⟨p, hp.1, List.prefix_refl p⟩)

theorem own_add_endingSum (h : Complete phrases g.nodes paths) (hi : paths[i]? = some u) :
    (g.nodes.node i).own + endingSum (collected phrases) (phrases.map (·.1)) u.tail =
      endingSum (collected phrases) (phrases.map (·.1)) u := by
  have hend := h.isEnd hi
  by_cases hp : IsPhrase (phrases.map (·.1)) u
  · rw [Node.own, if_pos (hend.mpr hp), h.nodeScore hi, endingSum_of_isPhrase hp]
  · rw [Node.own, if_neg fun he => hp (hend.mp he), endingSum_of_not_isPhrase collected_nil hp,
      zero_add]

/-- A node pays for all phrases that end its sequence. The output link leads to the longest of the
shorter ones, and that one's node pays for all the rest. -/
theorem outputScore (h : Complete phrases g.nodes paths) (hi : paths[i]? = some u) :
    (g.nodes.node i).outputScore = endingSum (collected phrases) (phrases.map (·.1)) u := by
  rw [← h.own_add_endingSum hi]
  induction hn : u.length using Nat.strong_induction_on generalizing i u with
  | _ n ih =>
      by_cases hu : u = []
      · subst hu
        obtain rfl := h.eq_root hi
        rw [h.root_unlinked.outputScore, List.tail_nil, endingSum_eq_zero collected_nil, add_zero]
        exact fun p hp hp' => hp'.1 (List.suffix_nil.mp hp)
      · have hlinked := h.linked hi hu
        have hout := hlinked.output
        rw [hlinked.outputScore]
        cases ho : (g.nodes.node i).output with
        | none =>
            rw [ho] at hout
            rw [endingSum_eq_zero collected_nil hout, add_zero]
        | some o =>
            rw [ho] at hout
            obtain ⟨v, hv, hlong⟩ := hout
            have hrest : endingSum (collected phrases) (phrases.map (·.1)) u.tail =
                endingSum (collected phrases) (phrases.map (·.1)) v :=
              endingSum_congr collected_nil fun p hp =>
                ⟨fun hs => hlong.suffix hs hp, fun hs => hs.trans hlong.ending⟩
            have hlt := hlong.length_lt hu
            dsimp only
            rw [ih v.length (by omega) hv rfl, h.own_add_endingSum hv, hrest]

/-- The output link of a node, the root included. -/
theorem output (h : Complete phrases g.nodes paths) (hi : paths[i]? = some u) :
    IsOutput paths (IsPhrase (phrases.map (·.1))) u.tail (g.nodes.node i).output := by
  by_cases hu : u = []
  · subst hu
    obtain rfl := h.eq_root hi
    rw [h.root_unlinked.output]
    exact fun v hv hv' => hv'.1 (List.suffix_nil.mp hv)
  · exact (h.linked hi hu).output

theorem output_eq_find? (h : Complete phrases g.nodes paths) (hi : paths[i]? = some u)
    (hlong : LongestEnding (IsPhrase (phrases.map (·.1))) u.tail v) :
    (g.nodes.node i).output = g.find? v := by
  have hout := h.output hi
  cases ho : (g.nodes.node i).output with
  | none =>
      rw [ho] at hout
      exact absurd hlong.holds (hout v hlong.ending)
  | some o =>
      rw [ho] at hout
      obtain ⟨x, hx, hxlong⟩ := hout
      rw [← hxlong.unique hlong, h.find?_iff.mpr hx]

theorem output_eq_none_iff (h : Complete phrases g.nodes paths) (hi : paths[i]? = some u) :
    (g.nodes.node i).output = none ↔
      ∀ v, v <:+ u.tail → ¬IsPhrase (phrases.map (·.1)) v := by
  have hout := h.output hi
  constructor
  · intro ho
    rw [ho] at hout
    exact hout
  · intro hnone
    cases ho : (g.nodes.node i).output with
    | none => rfl
    | some o =>
        rw [ho] at hout
        obtain ⟨x, -, hlong⟩ := hout
        exact absurd hlong.holds (hnone x hlong.ending)

end Arena.Complete

end

namespace Graph

variable [AddCommMonoid S] [LT S] [DecidableLT S] [BEq S]

/-- The nodes of a graph are the beginnings of its phrases, one for each. The output link of a node
leads to the longest proper ending that is a phrase, and the reward for phrase ends is the sum of
what all endings that are phrases have collected, the whole sequence included. -/
theorem output_longest_phrase (phrases : List (List Int)) (score : S) (scores : Option (List S))
    (hcount : Counted phrases scores) :
    ∃ g, ofPhrases phrases score scores = .ok g ∧
      (∀ u, IsBeginning phrases u ↔ ∃ i, g.find? u = some i) ∧
      (∀ i < g.size, ∃ u, ∀ v, g.find? v = some i ↔ v = u) ∧
      ∀ u i, g.find? u = some i →
        (∀ v, LongestEnding (IsPhrase phrases) u.tail v →
          (g.nodes.node i).output = g.find? v) ∧
        ((g.nodes.node i).output = none ↔ ∀ v, v <:+ u.tail → ¬IsPhrase phrases v) ∧
        (g.nodes.node i).outputScore = endingSum g.collectedAt phrases u := by
  obtain ⟨paths, h⟩ := Arena.complete_ofWeighted (weigh phrases score scores)
  refine ⟨_, ofPhrases_eq_ok score hcount, ?_, ?_, ?_⟩
  · intro u
    have hmem := h.mem u
    rw [weigh_phrases score hcount] at hmem
    rw [← hmem, List.mem_iff_getElem?]
    exact exists_congr fun i => h.find?_iff.symm
  · intro i hi
    obtain ⟨u, hu⟩ := h.exists_path hi
    exact ⟨u, h.find?_iff_eq hu⟩
  · intro u i hi
    rw [h.find?_iff] at hi
    have hlink {v : List Int} := h.output_eq_find? (v := v) hi
    have hnone := h.output_eq_none_iff hi
    have hscore := h.outputScore hi
    rw [← h.endingSum_collectedAt] at hscore
    rw [weigh_phrases score hcount] at hlink hnone hscore
    exact ⟨fun v => hlink, hnone, hscore⟩

/-- Three phrases end at the last node, one inside the other. -/
theorem output_longest_phrase_nested :
    Counted [[5, 6, 5], [6, 5], [5]] (some [(3 : ℚ), -1 / 2, 0]) ∧
      ∃ g, ofPhrases [[5, 6, 5], [6, 5], [5]] (1 : ℚ) (some [3, -1 / 2, 0]) = .ok g ∧
        ∃ i, g.find? [5, 6, 5] = some i ∧ (g.nodes.node i).output = g.find? [6, 5] ∧
          (g.nodes.node i).outputScore =
            endingSum g.collectedAt [[5, 6, 5], [6, 5], [5]] [5, 6, 5] := by
  refine ⟨by decide, ?_⟩
  obtain ⟨g, hg, hmem, -, houtput⟩ :=
    output_longest_phrase [[5, 6, 5], [6, 5], [5]] (1 : ℚ) (some [3, -1 / 2, 0]) (by decide)
  obtain ⟨i, hi⟩ := (hmem [5, 6, 5]).mp (by decide)
  obtain ⟨hlink, -, hscore⟩ := houtput [5, 6, 5] i hi
  exact ⟨g, hg, i, hi, hlink [6, 5] (.self (by decide)), hscore⟩

end Graph

end SpeechTransducer.Hotword
