import Mathlib.Data.Fintype.EquivFin
import SpeechTransducer.Proofs.Hotword.Level
import SpeechTransducer.Proofs.Hotword.Outputs

/-!
Graphs of the same phrases in another order. What a walk is paid depends on which sequences begin a
phrase, on the rewards for tokens and on what beginnings have collected. The order of the phrases
plays no part in the first two. In the third it plays none if and only if a phrase is worth as much
as every beginning of it: otherwise the phrases that raise the beginning may come before or after
the last one that goes on to the whole phrase.
-/

namespace SpeechTransducer.Hotword

variable {S : Type}

section

variable [AddCommGroup S] [LT S] [DecidableLT S] {phrases : List (List Int × S)} {g : Graph S}
variable {paths : List (List Int)} {i : Nat} {u v : List Int}

/-- A step from one sequence to another is paid for the token if it goes on to a child, and by the
difference of what the two have collected if it leaves a match. -/
theorem Arena.Complete.advance_reward (h : Complete phrases g.nodes paths)
    (hi : paths[i]? = some u) {t : Int} (hv : paths[(g.advance i t).2]? = some v) :
    (g.advance i t).1 = if v = u ++ [t] then (reward? phrases v).getD 0
      else collected phrases v - collected phrases u := by
  cases hc : (g.nodes.node i).child? t with
  | some c =>
      have hpath := (h.child?_eq_some hi t c).mp hc
      simp only [Graph.advance, hc] at hv ⊢
      obtain rfl : u ++ [t] = v := Option.some.inj (hpath.symm.trans hv)
      rw [if_pos rfl, h.tokenScore hpath (by simp), Option.getD_some]
  | none =>
      have hnot := (h.child?_eq_none hi t).mp hc
      simp only [Graph.advance, hc] at hv ⊢
      have hne : v ≠ u ++ [t] := fun heq => hnot (heq ▸ List.mem_of_getElem? hv)
      rw [if_neg hne, h.nodeScore hv, h.nodeScore hi]

end

/-- Two lists of phrases that no walk can tell apart. -/
structure SameWorth [Zero S] [Add S] [LT S] [DecidableLT S]
    (phrases phrases' : List (List Int × S)) : Prop where
  mem : ∀ p, p ∈ phrases.map (·.1) ↔ p ∈ phrases'.map (·.1)
  reward : ∀ u, reward? phrases u = reward? phrases' u
  collected : ∀ u, IsBeginning (phrases.map (·.1)) u → collected phrases u = collected phrases' u

namespace SameWorth

theorem isBeginning [Zero S] [Add S] [LT S] [DecidableLT S] {phrases phrases' : List (List Int × S)}
    (same : SameWorth phrases phrases') :
    IsBeginning (phrases.map (·.1)) = IsBeginning (phrases'.map (·.1)) := by
  funext u
  simp only [IsBeginning, same.mem]

theorem endingSum [AddCommMonoid S] [LT S] [DecidableLT S] {phrases phrases' : List (List Int × S)}
    (same : SameWorth phrases phrases') (u : List Int) :
    endingSum (Hotword.collected phrases) (phrases.map (·.1)) u =
      endingSum (Hotword.collected phrases') (phrases'.map (·.1)) u := by
  have hfinset : (phrases.map (·.1)).toFinset = (phrases'.map (·.1)).toFinset := by
    ext p
    rw [List.mem_toFinset, List.mem_toFinset, same.mem]
  rw [Hotword.endingSum, Hotword.endingSum, ← hfinset]
  apply Finset.sum_congr rfl
  intro p hp
  rw [Finset.mem_filter, List.mem_toFinset] at hp
  exact same.collected p (.inr ⟨p, hp.1, List.prefix_refl p⟩)

section

variable [AddCommGroup S] [LT S] [DecidableLT S] {phrases phrases' : List (List Int × S)}
variable {g g' : Graph S} {paths paths' : List (List Int)} {i i' : Nat} {u : List Int}

/-- Nodes that stand for the same sequence go on to nodes that do, for the same reward. -/
theorem advance (same : SameWorth phrases phrases')
    (h : Arena.Complete phrases g.nodes paths) (h' : Arena.Complete phrases' g'.nodes paths')
    (hi : paths[i]? = some u) (hi' : paths'[i']? = some u) (t : Int) :
    (g.advance i t).1 = (g'.advance i' t).1 ∧
      ∃ v, paths[(g.advance i t).2]? = some v ∧ paths'[(g'.advance i' t).2]? = some v := by
  obtain ⟨v, hv, hlong⟩ := h.advance hi t
  obtain ⟨v', hv', hlong'⟩ := h'.advance hi' t
  rw [← same.isBeginning] at hlong'
  obtain rfl := hlong.unique hlong'
  have hu := (h.mem u).mp (List.mem_of_getElem? hi)
  refine ⟨?_, v, hv, hv'⟩
  rw [h.advance_reward hi hv, h'.advance_reward hi' hv', same.reward, same.collected v hlong.holds,
    same.collected u hu]

theorem step [BEq S] (same : SameWorth phrases phrases')
    (h : Arena.Complete phrases g.nodes paths) (h' : Arena.Complete phrases' g'.nodes paths')
    (hi : paths[i]? = some u) (hi' : paths'[i']? = some u) (strict : Bool) (t : Int) :
    (g.step strict i t).1 = (g'.step strict i' t).1 ∧
      ∃ v, paths[(g.step strict i t).2]? = some v ∧ paths'[(g'.step strict i' t).2]? = some v := by
  obtain ⟨hpaid, v, hv, hv'⟩ := same.advance h h' hi hi' t
  have hout : (g.nodes.node (g.advance i t).2).outputScore =
      (g'.nodes.node (g'.advance i' t).2).outputScore := by
    rw [h.outputScore hv, h'.outputScore hv', same.endingSum]
  have hnode : (g.nodes.node (g.advance i t).2).nodeScore =
      (g'.nodes.node (g'.advance i' t).2).nodeScore := by
    rw [h.nodeScore hv, h'.nodeScore hv',
      same.collected v ((h.mem v).mp (List.mem_of_getElem? hv))]
  rw [Graph.step, Graph.step]
  cases strict with
  | true => exact ⟨by simp only [if_true, Graph.strictStep, hpaid, hout], v, hv, hv'⟩
  | false =>
      simp only [Bool.false_eq_true, if_false, Graph.releasingStep, hpaid, hout, hnode]
      split
      · exact ⟨rfl, v, hv, hv'⟩
      · exact ⟨rfl, [], h.root, h'.root⟩

theorem walk [BEq S] (same : SameWorth phrases phrases')
    (h : Arena.Complete phrases g.nodes paths) (h' : Arena.Complete phrases' g'.nodes paths')
    (hi : paths[i]? = some u) (hi' : paths'[i']? = some u) (strict : Bool) (w : List Int) :
    (g.walk strict i w).map (·.1) = (g'.walk strict i' w).map (·.1) := by
  induction w generalizing i i' u with
  | nil => rfl
  | cons t w ih =>
      obtain ⟨hpaid, v, hv, hv'⟩ := same.step h h' hi hi' strict t
      rw [Graph.walk, Graph.walk, List.map_cons, List.map_cons, hpaid, ih hv hv']

end

end SameWorth

theorem exists_foreign (phrases : List (List Int)) : ∃ t : Int, ∀ p ∈ phrases, t ∉ p := by
  obtain ⟨t, ht⟩ := Infinite.exists_notMem_finset phrases.flatten.toFinset
  refine ⟨t, fun p hp htp => ht ?_⟩
  rw [List.mem_toFinset]
  exact List.mem_flatten_of_mem hp htp

section

variable [AddCommGroup S] [LT S] [DecidableLT S] [BEq S] {phrases phrases' : List (List Int × S)}
variable {g g' : Graph S} {paths paths' : List (List Int)} {i : Nat} {u : List Int}

theorem Arena.Complete.arrive_beginning (h : Complete phrases g.nodes paths)
    (hu : IsBeginning (phrases.map (·.1)) u) : paths[g.arrive true u]? = some u := by
  obtain ⟨v, hv, hlong⟩ := h.arrive_strict u
  rwa [hlong.unique (.self hu)] at hv

/-- A token that no phrase has takes back all that a node has collected. -/
theorem Arena.Complete.step_foreign (h : Complete phrases g.nodes paths) (hi : paths[i]? = some u)
    {t : Int} (ht : ∀ p ∈ phrases.map (·.1), t ∉ p) :
    (g.step true i t).1 = -collected phrases u := by
  obtain ⟨v, hv, hlong⟩ := h.advance hi t
  obtain rfl : v = [] := by
    obtain hnil | ⟨y, rfl, -⟩ := List.suffix_concat_iff.mp hlong.ending
    · exact hnil
    · obtain ⟨p, hp, hpre⟩ := hlong.holds.resolve_left (by simp)
      exact absurd (hpre.subset (by simp)) (ht p hp)
  have hout : (g.nodes.node (g.advance i t).2).outputScore = 0 := by
    rw [h.outputScore hv]
    exact endingSum_eq_zero collected_nil fun p hp hp' => hp'.1 (List.suffix_nil.mp hp)
  simp only [Graph.step, if_true, Graph.strictStep]
  rw [hout, add_zero, h.advance_reward hi hv, if_neg (by simp), collected_nil, zero_sub]

/-- What a beginning has collected is seen by a walk that leaves it. -/
theorem collected_of_walks (h : Arena.Complete phrases g.nodes paths)
    (h' : Arena.Complete phrases' g'.nodes paths')
    (hmem : ∀ p, p ∈ phrases.map (·.1) ↔ p ∈ phrases'.map (·.1))
    (hwalk : ∀ w, (g.walk true Graph.root w).map (·.1) = (g'.walk true Graph.root w).map (·.1))
    (hu : IsBeginning (phrases.map (·.1)) u) : collected phrases u = collected phrases' u := by
  obtain ⟨t, ht⟩ := exists_foreign (phrases.map (·.1))
  have hu' : IsBeginning (phrases'.map (·.1)) u := by
    simpa only [IsBeginning, hmem] using hu
  have hleft := hwalk (u ++ [t])
  rw [Graph.walk_concat, Graph.walk_concat, List.map_append, List.map_append] at hleft
  have hlast := List.append_inj_right' hleft rfl
  rw [List.map_singleton, List.map_singleton, List.singleton_inj, ← Graph.arrive, ← Graph.arrive,
    h.step_foreign (h.arrive_beginning hu) ht,
    h'.step_foreign (h'.arrive_beginning hu') fun p hp => ht p ((hmem p).mpr hp), neg_inj] at hlast
  exact hlast

end

/-- Phrases with scores of their own, as a graph weighs them. -/
def withDefault [Zero S] [BEq S] (score : S) (pairs : List (List Int × S)) :
    List (List Int × S) :=
  pairs.map fun p => (p.1, if p.2 == 0 then score else p.2)

theorem withDefault_phrases [Zero S] [BEq S] (score : S) (pairs : List (List Int × S)) :
    (withDefault score pairs).map (·.1) = pairs.map (·.1) := by
  simp [withDefault, Function.comp_def]

theorem exists_perm_of_withDefault [Zero S] [BEq S] {score : S} {pairs qs : List (List Int × S)}
    (h : (withDefault score pairs).Perm qs) :
    ∃ pairs', pairs.Perm pairs' ∧ withDefault score pairs' = qs := by
  have hcomp := (List.eq_map_comp_perm fun p : List Int × S =>
    (p.1, if p.2 == 0 then score else p.2)).ge qs pairs h.symm
  obtain ⟨pairs', rfl, hperm⟩ := hcomp
  exact ⟨pairs', hperm.symm, rfl⟩

theorem weigh_pairs [Zero S] [BEq S] (score : S) (pairs : List (List Int × S)) :
    weigh (pairs.map (·.1)) score (some (pairs.map (·.2))) = withDefault score pairs := by
  simp [weigh, withDefault, List.zipWith_map]

section

variable [AddCommGroup S] [LinearOrder S] [BEq S]

/-- Whether the graphs of two lists of phrases with scores pay the same along every walk from the
root. -/
def PaySame (score : S) (pairs pairs' : List (List Int × S)) : Prop :=
  ∃ g g', Graph.ofPhrases (pairs.map (·.1)) score (some (pairs.map (·.2))) = .ok g ∧
    Graph.ofPhrases (pairs'.map (·.1)) score (some (pairs'.map (·.2))) = .ok g' ∧
    ∀ strict w,
      (g.walk strict Graph.root w).map (·.1) = (g'.walk strict Graph.root w).map (·.1)

theorem ofPhrases_pairs (score : S) (pairs : List (List Int × S)) :
    Graph.ofPhrases (pairs.map (·.1)) score (some (pairs.map (·.2))) =
      .ok (Graph.ofWeighted (withDefault score pairs)) := by
  rw [← weigh_pairs]
  exact Graph.ofPhrases_eq_ok score (by simp [Counted])

/-- Two orders pay the same if and only if all beginnings have collected the same. -/
theorem paySame_iff {score : S} {pairs pairs' : List (List Int × S)} (hperm : pairs.Perm pairs') :
    PaySame score pairs pairs' ↔ ∀ u, IsBeginning (pairs.map (·.1)) u →
      collected (withDefault score pairs) u = collected (withDefault score pairs') u := by
  have hmem (p : List Int) : p ∈ (withDefault score pairs).map (·.1) ↔
      p ∈ (withDefault score pairs').map (·.1) := by
    rw [withDefault_phrases, withDefault_phrases]
    exact (hperm.map _).mem_iff
  obtain ⟨paths, h⟩ := Arena.complete_ofWeighted (withDefault score pairs)
  obtain ⟨paths', h'⟩ := Arena.complete_ofWeighted (withDefault score pairs')
  constructor
  · intro hsame u hu
    obtain ⟨g, g', hg, hg', hwalk⟩ := hsame
    obtain rfl := Except.ok.inj ((ofPhrases_pairs score pairs).symm.trans hg)
    obtain rfl := Except.ok.inj ((ofPhrases_pairs score pairs').symm.trans hg')
    rw [← withDefault_phrases score pairs] at hu
    exact collected_of_walks h h' hmem (hwalk true) hu
  · intro hcollected
    have same : SameWorth (withDefault score pairs) (withDefault score pairs') := by
      refine ⟨hmem, fun u => reward?_perm (hperm.map _) u, ?_⟩
      rw [withDefault_phrases]
      exact hcollected
    exact ⟨_, _, ofPhrases_pairs score pairs, ofPhrases_pairs score pairs', fun strict w =>
      same.walk h h' h.root h'.root strict w⟩

/-- Two orders of the phrases pay the same along every walk if and only if every beginning has
collected the same in both. All orders pay the same if and only if every phrase is worth as much as
each of its beginnings. -/
theorem paySame_perm_iff_level [IsOrderedAddMonoid S] (score : S) (pairs : List (List Int × S)) :
    (∀ pairs', pairs.Perm pairs' →
        (PaySame score pairs pairs' ↔ ∀ u, IsBeginning (pairs.map (·.1)) u →
          collected (withDefault score pairs) u = collected (withDefault score pairs') u)) ∧
      ((∀ pairs', pairs.Perm pairs' → PaySame score pairs pairs') ↔
        Level (withDefault score pairs)) := by
  refine ⟨fun pairs' hperm => paySame_iff hperm, ?_, ?_⟩
  · intro hsame
    apply level_of_collected
    intro qs hqs u hu
    obtain ⟨pairs', hperm, rfl⟩ := exists_perm_of_withDefault hqs
    rw [withDefault_phrases] at hu
    exact (paySame_iff hperm).mp (hsame pairs' hperm) u hu
  · intro hlevel pairs' hperm
    refine (paySame_iff hperm).mpr fun u hu => ?_
    rw [← withDefault_phrases score pairs] at hu
    exact hlevel.collected_perm (hperm.map _) hu

end

/-- A phrase whose own score is zero has the default, which is the score of the phrase it begins
with. The phrases of the second list begin with one token and have different scores. -/
theorem paySame_perm_iff_level_nested :
    PaySame (1 : ℚ) [([1, 2], 0), ([1], 1), ([3], -2)] [([3], -2), ([1], 1), ([1, 2], 0)] ∧
      ¬∀ pairs', [([1, 2], (1 : ℚ)), ([1, 3], 5)].Perm pairs' →
        PaySame 1 [([1, 2], 1), ([1, 3], 5)] pairs' := by
  constructor
  · exact (paySame_perm_iff_level 1 [([1, 2], 0), ([1], 1), ([3], -2)]).2.mpr
      (by decide +kernel) _ (by decide +kernel)
  · intro hall
    have hlevel := (paySame_perm_iff_level 1 [([1, 2], (1 : ℚ)), ([1, 3], 5)]).2.mp hall
    revert hlevel
    decide +kernel

/-- The second token of the first phrase is paid four more if the phrase that raises the shared
token comes first. -/
theorem not_paySame_raising :
    [([1, 2], (1 : ℚ)), ([1, 3], 5)].Perm [([1, 3], 5), ([1, 2], 1)] ∧
      ∃ g g', Graph.ofPhrases [[1, 2], [1, 3]] (1 : ℚ) (some [1, 5]) = .ok g ∧
        Graph.ofPhrases [[1, 3], [1, 2]] (1 : ℚ) (some [5, 1]) = .ok g' ∧
        (g.walk true Graph.root [1, 2]).map (·.1) = [5, 3] ∧
        (g'.walk true Graph.root [1, 2]).map (·.1) = [5, 7] ∧
        ¬PaySame (1 : ℚ) [([1, 2], 1), ([1, 3], 5)] [([1, 3], 5), ([1, 2], 1)] := by
  refine ⟨by decide +kernel, _, _, rfl, rfl, by decide +kernel, by decide +kernel, ?_⟩
  rintro ⟨g, g', hg, hg', hwalk⟩
  obtain rfl := Graph.ofPhrases_inv hg
  obtain rfl := Graph.ofPhrases_inv hg'
  have hpaid := hwalk true [1, 2]
  revert hpaid
  decide +kernel

end SpeechTransducer.Hotword
