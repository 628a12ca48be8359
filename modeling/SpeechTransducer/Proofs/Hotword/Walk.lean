import Mathlib.Algebra.Order.Ring.Int
import SpeechTransducer.Proofs.Hotword.Links

/-!
Walks through a finished graph. One step takes the longest ending that begins a phrase to the
longest such ending of the sequence with the new token; a walk that is never sent back to the root
therefore stays at the longest ending of all that it has read.
-/

namespace SpeechTransducer.Hotword

variable {S : Type}

/-- Phrases with the reward per token that a graph gives them. -/
def weigh [Zero S] [BEq S] (phrases : List (List Int)) (score : S) (scores : Option (List S)) :
    List (List Int × S) :=
  match scores with
  | none => phrases.map (·, score)
  | some own => List.zipWith (fun p s => (p, if s == 0 then score else s)) phrases own

/-- Every phrase has a reward of its own, or none has. -/
def Counted (phrases : List (List Int)) (scores : Option (List S)) : Prop :=
  ∀ own ∈ scores, own.length = phrases.length

instance (phrases : List (List Int)) (scores : Option (List S)) :
    Decidable (Counted phrases scores) :=
  decidable_of_iff (scores.all fun own => own.length = phrases.length) (by
    cases scores <;> simp [Counted])

theorem weigh_phrases [Zero S] [BEq S] {phrases : List (List Int)} {scores : Option (List S)}
    (score : S) (hcount : Counted phrases scores) :
    (weigh phrases score scores).map (·.1) = phrases := by
  cases scores with
  | none => simp [weigh, Function.comp_def]
  | some own =>
      have hlen := hcount own rfl
      apply List.ext_getElem
      · simp [weigh, hlen]
      · simp [weigh]

/-- Graphs that weigh all phrases the same. -/
theorem weigh_common [Zero S] [BEq S] {phrases : List (List Int)} {scores : Option (List S)}
    {score s : S} (hcount : Counted phrases scores)
    (hs : ∀ p ∈ weigh phrases score scores, p.2 = s) :
    weigh phrases score scores = phrases.map (·, s) := by
  have hsame : ∀ p ∈ weigh phrases score scores, p = (p.1, s) :=
    fun p hp => Prod.ext rfl (hs p hp)
  calc weigh phrases score scores
      = (weigh phrases score scores).map fun p => (p.1, s) := by
        rw [← List.map_congr_left hsame, List.map_id']
    _ = ((weigh phrases score scores).map (·.1)).map (·, s) := by rw [List.map_map]; rfl
    _ = phrases.map (·, s) := by rw [weigh_phrases score hcount]

namespace Graph

theorem ofPhrases_eq_ok [Zero S] [Add S] [LT S] [DecidableLT S] [BEq S]
    {phrases : List (List Int)} {scores : Option (List S)} (score : S)
    (hcount : Counted phrases scores) :
    ofPhrases phrases score scores = .ok (ofWeighted (weigh phrases score scores)) := by
  cases scores with
  | none => rfl
  | some own => rw [ofPhrases, if_pos (hcount own rfl), weigh]

theorem ofPhrases_inv [Zero S] [Add S] [LT S] [DecidableLT S] [BEq S] {phrases : List (List Int)}
    {score : S} {scores : Option (List S)} {g : Graph S}
    (h : ofPhrases phrases score scores = .ok g) :
    g = ofWeighted (weigh phrases score scores) := by
  cases scores with
  | none => exact (Except.ok.inj h).symm
  | some own =>
      rw [ofPhrases] at h
      split at h
      · exact (Except.ok.inj h).symm
      · cases h

/-- The node that a sequence leads to from the root, from child to child. -/
def find? [Zero S] (g : Graph S) (u : List Int) : Option Nat := g.nodes.follow root u

section

variable [Zero S] [Add S] [Sub S] [BEq S]

/-- The node that a walk from the root ends in. -/
def arrive (g : Graph S) (strict : Bool) (w : List Int) : Nat :=
  ((g.walk strict root w).map (·.2)).getLastD root

theorem walk_concat (g : Graph S) (strict : Bool) (i : Nat) (w : List Int) (t : Int) :
    g.walk strict i (w ++ [t]) = g.walk strict i w ++
      [g.step strict (((g.walk strict i w).map (·.2)).getLastD i) t] := by
  induction w generalizing i with
  | nil => rfl
  | cons a w ih =>
      simp only [List.cons_append, walk, ih, List.map_cons, List.getLastD_cons]

theorem arrive_concat (g : Graph S) (strict : Bool) (w : List Int) (t : Int) :
    g.arrive strict (w ++ [t]) = (g.step strict (g.arrive strict w) t).2 := by
  simp [arrive, walk_concat]

end

end Graph

namespace Arena.Complete

variable [Zero S] [Add S] [LT S] [DecidableLT S]
variable {phrases : List (List Int × S)} {g : Graph S} {paths : List (List Int)}
variable {i : Nat} {u : List Int}

theorem mem_eq (h : Complete phrases g.nodes paths) :
    (· ∈ paths) = IsBeginning (phrases.map (·.1)) :=
  funext fun u => propext (h.mem u)

theorem find?_iff (h : Complete phrases g.nodes paths) :
    g.find? u = some i ↔ paths[i]? = some u := h.follow_root u

/-- A node is found at its own sequence only. -/
theorem find?_iff_eq (h : Complete phrases g.nodes paths) (hi : paths[i]? = some u)
    (v : List Int) : g.find? v = some i ↔ v = u := by
  rw [h.find?_iff, hi, Option.some_inj, eq_comm]

theorem fail (h : Complete phrases g.nodes paths) (hi : paths[i]? = some u) :
    ∃ f, paths[(g.nodes.node i).fail]? = some f ∧
      LongestEnding (IsBeginning (phrases.map (·.1))) u.tail f := by
  rw [← h.mem_eq]
  by_cases hu : u = []
  · subst hu
    obtain rfl := h.eq_root hi
    rw [h.root_unlinked.fail]
    exact ⟨[], h.root, LongestEnding.nil_iff.mpr ⟨rfl, h.nil_mem⟩⟩
  · exact (h.linked hi hu).fail

/-- One token more, before phrase ends are looked at. -/
theorem advance [Sub S] (h : Complete phrases g.nodes paths) (hi : paths[i]? = some u) (t : Int) :
    ∃ v, paths[(g.advance i t).2]? = some v ∧
      LongestEnding (IsBeginning (phrases.map (·.1))) (u ++ [t]) v := by
  rw [← h.mem_eq, Graph.advance]
  cases hc : (g.nodes.node i).child? t with
  | some c => exact h.child_longest hi hc
  | none =>
      have hnot := (h.child?_eq_none hi t).mp hc
      obtain ⟨f, hf, hlong⟩ := h.fail hi
      rw [← h.mem_eq] at hlong
      obtain ⟨v, hv, hvlong⟩ := h.chase (fun hj hv _ => (h.linked hj hv).fail) t _ hf
        (h.level hf).ge le_rfl
      refine ⟨v, hv, ?_⟩
      by_cases hu : u = []
      · subst hu
        obtain rfl := (LongestEnding.nil_iff.mp hlong).1
        exact hvlong
      · apply LongestEnding.of_tail hnot
        rw [List.tail_append_of_ne_nil hu]
        exact hlong.concat (fun hx => h.closed hx) hvlong

/-- Steps stay inside the arena. -/
theorem step_lt_size [Sub S] [BEq S] (h : Complete phrases g.nodes paths) (strict : Bool)
    (hi : i < g.size) (t : Int) : (g.step strict i t).2 < g.size := by
  obtain ⟨u, hu⟩ := h.exists_path hi
  obtain ⟨v, hv, -⟩ := h.advance hu t
  have hlt := h.lt_size hv
  rw [Graph.step]
  cases strict with
  | true => exact hlt
  | false =>
      simp only [Bool.false_eq_true, if_false, Graph.releasingStep]
      split
      · exact hlt
      · exact h.lt_size h.root

theorem arrive_lt_size [Sub S] [BEq S] (h : Complete phrases g.nodes paths) (strict : Bool)
    (w : List Int) : g.arrive strict w < g.size := by
  induction w using List.reverseRecOn with
  | nil => exact h.lt_size h.root
  | append_singleton w t ih =>
      rw [Graph.arrive_concat]
      exact h.step_lt_size strict ih t

/-- A walk that is never sent back to the root is at the longest ending of what it has read. -/
theorem arrive_strict [Sub S] [BEq S] (h : Complete phrases g.nodes paths) (w : List Int) :
    ∃ u, paths[g.arrive true w]? = some u ∧
      LongestEnding (IsBeginning (phrases.map (·.1))) w u := by
  induction w using List.reverseRecOn with
  | nil => exact ⟨[], h.root, LongestEnding.nil_iff.mpr ⟨rfl, isBeginning_nil _⟩⟩
  | append_singleton w t ih =>
      obtain ⟨u, hu, hlong⟩ := ih
      obtain ⟨v, hv, hvlong⟩ := h.advance hu t
      rw [Graph.arrive_concat]
      refine ⟨v, hv, hlong.concat ?_ hvlong⟩
      intro x t hx
      exact isBeginning_of_prefix hx (List.prefix_append x [t])

end Arena.Complete

namespace Graph

variable [Zero S] [Add S] [Sub S] [LT S] [DecidableLT S] [BEq S]

/-- One sequence leads from the root to where a walk ends: the longest ending of what it has read
that begins a phrase. A failure link leads to the longest proper ending that begins a phrase. -/
theorem walk_longest_beginning (phrases : List (List Int)) (score : S) (scores : Option (List S))
    (hcount : Counted phrases scores) :
    ∃ g, ofPhrases phrases score scores = .ok g ∧
      (∀ w, ∃ u, LongestEnding (IsBeginning phrases) w u ∧
        ∀ v, g.find? v = some (g.arrive true w) ↔ v = u) ∧
      ∀ i < g.size, ∃ u f, (∀ v, g.find? v = some i ↔ v = u) ∧
        LongestEnding (IsBeginning phrases) u.tail f ∧
        g.find? f = some (g.nodes.node i).fail := by
  obtain ⟨paths, h⟩ := Arena.complete_ofWeighted (weigh phrases score scores)
  have honly {i : Nat} {u : List Int} (hu : paths[i]? = some u) (v : List Int) :
      (ofWeighted (weigh phrases score scores)).find? v = some i ↔ v = u := by
    rw [h.find?_iff, hu, Option.some_inj, eq_comm]
  refine ⟨_, ofPhrases_eq_ok score hcount, ?_, ?_⟩
  · intro w
    obtain ⟨u, hu, hlong⟩ := h.arrive_strict w
    rw [weigh_phrases score hcount] at hlong
    exact ⟨u, hlong, honly hu⟩
  · intro i hi
    obtain ⟨u, hu⟩ := h.exists_path hi
    obtain ⟨f, hf, hlong⟩ := h.fail hu
    rw [weigh_phrases score hcount] at hlong
    exact ⟨u, f, honly hu, hlong, h.find?_iff.mpr hf⟩

theorem walk_longest_beginning_overlapping :
    ∃ g, ofPhrases [[5, 6, 5], [6, 5, 7]] (1 : Int) (some [3, 0]) = .ok g ∧
      ∃ u, LongestEnding (IsBeginning [[5, 6, 5], [6, 5, 7]]) [5, 6, 5, 7] u ∧
        g.find? u = some (g.arrive true [5, 6, 5, 7]) := by
  obtain ⟨g, hg, hwalk, -⟩ :=
    walk_longest_beginning [[5, 6, 5], [6, 5, 7]] (1 : Int) (some [3, 0]) (by decide)
  obtain ⟨u, hlong, hu⟩ := hwalk [5, 6, 5, 7]
  exact ⟨g, hg, u, hlong, (hu u).mpr rfl⟩

end Graph

end SpeechTransducer.Hotword
