import Mathlib.Algebra.Order.BigOperators.Group.List
import Mathlib.Algebra.Order.Ring.Rat
import SpeechTransducer.Proofs.Hotword.Walk

/-!
What nodes have collected, against the rewards on the way to them. A phrase raises the rewards of
the nodes it passes, and what they have collected with them. The nodes off its way keep what they
had, so that a node collects less than the rewards on its way once a later phrase has raised one of
them and turned off before the node.
-/

namespace SpeechTransducer.Hotword

variable {S : Type}

section

variable [LinearOrder S] {phrases : List (List Int × S)} {u v : List Int} {r : S}

/-- On the way to a beginning there are rewards, and later phrases may have raised them. -/
theorem reward?_upTo_le (hu : ∃ p ∈ phrases, u <+: p.1) (hv : v <+: u) :
    ∃ r r', reward? (upTo u phrases) v = some r ∧ reward? phrases v = some r' ∧ r ≤ r' := by
  obtain ⟨p, hp, hpre⟩ := hu
  obtain ⟨r, hr⟩ := reward?_exists ⟨p, mem_upTo hp hpre, hv.trans hpre⟩
  obtain ⟨r', hr'⟩ := reward?_exists ⟨p, hp, hv.trans hpre⟩
  refine ⟨r, r', hr, hr', reward?_mono ?_ hr hr'⟩
  intro s hs
  obtain ⟨q, hq, hvq⟩ := hs
  exact ⟨q, upTo_subset u phrases hq, hvq⟩

end

/-- Whether the rewards on the way to a sequence are what they were when the last phrase passed it:
no phrase after that raises one of them. -/
def Settled [LT S] [DecidableLT S] (phrases : List (List Int × S)) (u : List Int) : Prop :=
  ∀ v, v ≠ [] → v <+: u → reward? (upTo u phrases) v = reward? phrases v

section

variable [AddCommGroup S] [LinearOrder S]
variable {phrases : List (List Int × S)} {u : List Int} {g : Graph S} {paths : List (List Int)}
variable {i c : Nat} {t : Int}

/-- A beginning has collected the rewards on its way if and only if they are settled. Each of them
is at least what it was, so the sums differ as soon as one of them does. -/
theorem collected_eq_sum_iff [IsOrderedAddMonoid S] (hu : u ≠ [] → ∃ p ∈ phrases, u <+: p.1) :
    collected phrases u = (tokenRewards phrases u).sum ↔ Settled phrases u := by
  rw [collected, ← List.sum_eq_foldl]
  constructor
  · intro hsum v hv hpre
    have hpos := List.length_pos_iff.mpr hv
    have hlen := hpre.length_le
    have hne : u ≠ [] := fun hnil => hv (List.prefix_nil.mp (hnil ▸ hpre))
    obtain ⟨r, r', hr, hr', hle⟩ := reward?_upTo_le (hu hne) hpre
    by_contra hdiff
    rw [hr, hr', Option.some_inj] at hdiff
    have hlt := List.sum_lt_sum (l := List.range u.length)
      (fun k => (reward? (upTo u phrases) (u.take (k + 1))).getD 0)
      (fun k => (reward? phrases (u.take (k + 1))).getD 0)
      (by
        intro k _
        obtain ⟨q, q', hq, hq', hle⟩ := reward?_upTo_le (hu hne) (List.take_prefix (k + 1) u)
        simpa [hq, hq'] using hle)
      (by
        refine ⟨v.length - 1, by rw [List.mem_range]; omega, ?_⟩
        rw [Nat.sub_add_cancel hpos, ← List.prefix_iff_eq_take.mp hpre, hr, hr']
        exact lt_of_le_of_ne hle hdiff)
    exact hlt.ne hsum
  · intro hsettled
    rw [tokenRewards_congr fun v hv hpre => hsettled v hv hpre]

/-- Whether every node has collected what its parent has and the reward for its own token. -/
def Accumulates (g : Graph S) : Prop :=
  ∀ i < g.size, ∀ x ∈ (g.nodes.node i).next,
    (g.nodes.node x.2).nodeScore = (g.nodes.node i).nodeScore + (g.nodes.node x.2).tokenScore

namespace Arena.Complete

theorem sum_tokenRewards_child (h : Complete phrases g.nodes paths)
    (hc : paths[c]? = some (u ++ [t])) :
    (tokenRewards phrases (u ++ [t])).sum =
      (tokenRewards phrases u).sum + (g.nodes.node c).tokenScore := by
  rw [tokenRewards_concat, List.sum_append, List.sum_singleton, h.tokenScore hc (by simp),
    Option.getD_some]

theorem accumulates_iff (h : Complete phrases g.nodes paths) :
    Accumulates g ↔ ∀ {i u}, paths[i]? = some u →
      (g.nodes.node i).nodeScore = (tokenRewards phrases u).sum := by
  constructor
  · intro hacc i u hi
    induction u using List.reverseRecOn generalizing i with
    | nil =>
        rw [h.nodeScore hi, collected_nil]
        rfl
    | append_singleton u t ih =>
        obtain ⟨j, hj⟩ := List.mem_iff_getElem?.mp (h.closed (List.mem_of_getElem? hi))
        rw [h.sum_tokenRewards_child hi, ← ih hj]
        exact hacc j (h.lt_size hj) (t, i) ((h.next hj t i).mpr hi)
  · intro hsum i hlt x hx
    obtain ⟨u, hu⟩ := h.exists_path hlt
    have hc := (h.next hu x.1 x.2).mp hx
    rw [hsum hc, h.sum_tokenRewards_child hc, hsum hu]

/-- A step then pays the difference between what the two nodes have collected. -/
theorem advance_pays (h : Complete phrases g.nodes paths) (hacc : Accumulates g)
    (hi : paths[i]? = some u) (t : Int) :
    (g.advance i t).1 =
      (g.nodes.node (g.advance i t).2).nodeScore - (g.nodes.node i).nodeScore := by
  rw [Graph.advance]
  cases hc : (g.nodes.node i).child? t with
  | some c =>
      have hc := (h.child?_eq_some hi t c).mp hc
      dsimp only
      rw [hacc i (h.lt_size hi) (t, c) ((h.next hi t c).mpr hc), add_sub_cancel_left]
  | none => rfl

end Arena.Complete

/-- Nodes accumulate the rewards on their way if and only if those rewards are settled for every
beginning of a phrase. -/
theorem accumulates_iff_settled [IsOrderedAddMonoid S] (phrases : List (List Int)) (score : S)
    (scores : Option (List S)) (hcount : Counted phrases scores) :
    ∃ g, Graph.ofPhrases phrases score scores = .ok g ∧
      (Accumulates g ↔ ∀ u, IsBeginning phrases u → Settled (weigh phrases score scores) u) := by
  obtain ⟨paths, h⟩ := Arena.complete_ofWeighted (weigh phrases score scores)
  refine ⟨_, Graph.ofPhrases_eq_ok score hcount, ?_⟩
  have hmem := h.mem
  rw [weigh_phrases score hcount] at hmem
  have hphrase {u : List Int} (hu : IsBeginning phrases u) (hne : u ≠ []) :
      ∃ p ∈ weigh phrases score scores, u <+: p.1 := by
    obtain ⟨p, hp, hpre⟩ := hu.resolve_left hne
    rw [← weigh_phrases score hcount] at hp
    obtain ⟨q, hq, rfl⟩ := List.mem_map.mp hp
    exact ⟨q, hq, hpre⟩
  rw [h.accumulates_iff]
  constructor
  · intro hsum u hu
    obtain ⟨i, hi⟩ := List.mem_iff_getElem?.mp ((hmem u).mpr hu)
    rw [← collected_eq_sum_iff (hphrase hu), ← h.nodeScore hi]
    exact hsum hi
  · intro hsettled i u hi
    have hu := (hmem u).mp (List.mem_of_getElem? hi)
    rw [h.nodeScore hi]
    exact (collected_eq_sum_iff (hphrase hu)).mpr (hsettled u hu)

theorem accumulates_iff_settled_lowering :
    Counted [[1, 3], [1, 2]] (some [(5 : ℚ), 1]) ∧
      ∃ g, Graph.ofPhrases [[1, 3], [1, 2]] (1 : ℚ) (some [5, 1]) = .ok g ∧
        (Accumulates g ↔ ∀ u, IsBeginning [[1, 3], [1, 2]] u →
          Settled (weigh [[1, 3], [1, 2]] (1 : ℚ) (some [5, 1])) u) :=
  ⟨by decide, accumulates_iff_settled [[1, 3], [1, 2]] (1 : ℚ) (some [5, 1]) (by decide)⟩

/-- The second phrase raises the reward of the shared token. The end of the first one keeps two,
where its parent has five and its own token is worth one. -/
theorem not_accumulates_raising :
    ∃ g, Graph.ofPhrases [[1, 2], [1, 3]] (1 : ℚ) (some [1, 5]) = .ok g ∧
      (g.nodes.node 1).nodeScore = 5 ∧ (g.nodes.node 2).tokenScore = 1 ∧
      (g.nodes.node 2).nodeScore = 2 ∧ ¬Accumulates g := by
  refine ⟨_, rfl, by decide +kernel, by decide +kernel, by decide +kernel, ?_⟩
  intro hacc
  have hchild := hacc 1 (by decide +kernel) (2, 2) (by decide +kernel)
  revert hchild
  decide +kernel

end

end SpeechTransducer.Hotword
