import SpeechTransducer.Proofs.Hypotheses.Strongest

/-!
The best entries of a container. An entry is known by its place in the order of addition, and ranks
in front of another one if it scores higher, or on a tie if it is the older one. The ranking puts
the entries in this order, so its first ones outrank all that are left out; by age, the same entries
stand in the order of addition. The first one of all is the oldest of the strongest.
-/

namespace SpeechTransducer

namespace Ranking

theorem rank_eq_mergeSort {α : Type} {before : α → α → Bool} {comparable : α → Bool} {xs : List α}
    (h : ∀ x ∈ xs, comparable x) :
    rank before comparable xs = xs.mergeSort fun a b => !before b a :=
  if_pos (List.all_eq_true.mpr h)

end Ranking

namespace Hypotheses

variable {S : Type}

/-- Whether an entry with its place stands in front of another one: it scores no lower, and on a tie
it is the older one. -/
def Outranks [LT S] (a b : Hypothesis S × Nat) : Prop :=
  ¬a.1.score < b.1.score ∧ (¬b.1.score < a.1.score → a.2 < b.2)

/-- The scores of a container are totally ordered. -/
structure Ordered [BEq S] [LT S] (hs : Hypotheses S) : Prop where
  defined : ∀ h ∈ hs.entries, isUndefined h.score = false
  ranked : Ranked (scores hs.entries)

/-- The best `k` entries of a container with their places, or all if there are fewer, the best one
first. -/
structure Selects [LT S] (hs : Hypotheses S) (k : Int) (chosen : List (Hypothesis S × Nat)) :
    Prop where
  size : (chosen.length : Int) = min (max k 0) hs.size
  mem : ∀ a ∈ chosen, a ∈ hs.entries.zipIdx
  sorted : chosen.Pairwise Outranks
  best : ∀ a ∈ chosen, ∀ b ∈ hs.entries.zipIdx, b ∉ chosen → Outranks a b

theorem nodup_places (xs : List (Hypothesis S)) : (xs.zipIdx.map Prod.snd).Nodup := by
  rw [List.zipIdx_map_snd]
  exact List.nodup_range'

section

variable [BEq S] [LT S] [DecidableLT S] {hs : Hypotheses S} {k : Int}

/-- The ranking of the entries with their places. -/
def rankedPlaces (hs : Hypotheses S) : List (Hypothesis S × Nat) :=
  hs.entries.zipIdx.mergeSort fun a b => !ranksBefore b.1 a.1

omit [BEq S] in
theorem rankedPlaces_perm : hs.rankedPlaces.Perm hs.entries.zipIdx := List.mergeSort_perm _ _

theorem rank_zipIdx (h : hs.Ordered) :
    Ranking.rank (fun a b => ranksBefore a.1 b.1) (fun a => isRankable a.1) hs.entries.zipIdx =
      hs.rankedPlaces := by
  refine Ranking.rank_eq_mergeSort fun a ha => ?_
  rw [isRankable, h.defined a.1 (List.fst_mem_of_mem_zipIdx ha)]
  rfl

theorem ranked_eq_map (h : hs.Ordered) : hs.ranked = hs.rankedPlaces.map Prod.fst := by
  have hrank : hs.ranked = hs.entries.mergeSort fun a b => !ranksBefore b a :=
    Ranking.rank_eq_mergeSort fun e he => by rw [isRankable, h.defined e he]; rfl
  have hmap := List.map_mergeSort (f := Prod.fst) (l := hs.entries.zipIdx)
    (s := fun a b => !ranksBefore b a) fun _ _ _ _ => rfl
  rw [List.zipIdx_map_fst] at hmap
  exact hrank.trans hmap.symm

theorem outranks_rankedPlaces (h : hs.Ordered) : hs.rankedPlaces.Pairwise Outranks := by
  have hle {a b : Hypothesis S × Nat} : (!ranksBefore b.1 a.1) = true ↔ ¬a.1.score < b.1.score := by
    simp [ranksBefore]
  have hscore {a : Hypothesis S × Nat} (ha : a ∈ hs.entries.zipIdx) :
      a.1.score ∈ scores hs.entries := ⟨a.1, List.fst_mem_of_mem_zipIdx ha, rfl⟩
  refine (pairwise_mergeSort_on ?_ ?_ (Search.Beam.pairwise_zipIdx hs.entries)).imp fun hab => ?_
  · intro a ha b hb c hc hab hbc
    rw [hle] at hab hbc ⊢
    exact h.ranked.not_lt_trans (hscore ha) (hscore hb) (hscore hc) hab hbc
  · intro a ha b hb
    rw [Bool.or_eq_true, hle, hle]
    exact h.ranked.not_lt_total (hscore ha) (hscore hb)
  · exact ⟨hle.mp hab.1, fun hnot => hab.2 (hle.mpr hnot)⟩

theorem selects_take (h : hs.Ordered) (k : Int) : Selects hs k (hs.rankedPlaces.take k.toNat) := by
  have hsorted := outranks_rankedPlaces h
  rw [← List.take_append_drop k.toNat hs.rankedPlaces, List.pairwise_append] at hsorted
  constructor
  case size =>
    rw [List.length_take, rankedPlaces_perm.length_eq, List.length_zipIdx, Hypotheses.size]
    omega
  case mem => exact fun a ha => rankedPlaces_perm.mem_iff.mp (List.mem_of_mem_take ha)
  case sorted => exact hsorted.1
  case best =>
    intro a ha b hb hnot
    have hmem := rankedPlaces_perm.mem_iff.mpr hb
    rw [← List.take_append_drop k.toNat hs.rankedPlaces, List.mem_append] at hmem
    exact hsorted.2.2 a ha b (hmem.resolve_left hnot)

theorem topByAge_eq (h : hs.Ordered) (k : Int) :
    ∃ byAge : List (Hypothesis S × Nat), byAge.Perm (hs.rankedPlaces.take k.toNat) ∧
      byAge.Sublist hs.entries.zipIdx ∧ hs.topByAge k = byAge.map Prod.fst := by
  have hchosen := selects_take h k
  have hnodup : hs.entries.zipIdx.Nodup := (nodup_places _).of_map
  refine ⟨hs.entries.zipIdx.filter fun a =>
    (hs.rankedPlaces.take k.toNat).any (·.2 == a.2), ?_, List.filter_sublist, ?_⟩
  · refine (List.perm_ext_iff_of_nodup (hnodup.filter _) ?_).mpr fun a => ?_
    · exact (rankedPlaces_perm.nodup_iff.mpr hnodup).sublist (List.take_sublist _ _)
    · rw [List.mem_filter, List.any_eq_true]
      constructor
      · rintro ⟨ha, c, hc, hsame⟩
        have heq : c = a :=
          List.inj_on_of_nodup_map (nodup_places _) (hchosen.mem c hc) ha (eq_of_beq hsame)
        exact heq ▸ hc
      · exact fun ha => ⟨hchosen.mem a ha, a, ha, beq_self_eq_true _⟩
  · rw [topByAge, rank_zipIdx h]

theorem top_eq (h : hs.Ordered) (k : Int) :
    hs.top k = (hs.rankedPlaces.take k.toNat).map Prod.fst := by
  rw [top, ranked_eq_map h, List.map_take]

omit [BEq S] [DecidableLT S] in
theorem firstStrongest_of_outranks {entries : List (Hypothesis S)} {a : Hypothesis S × Nat}
    (ha : a ∈ entries.zipIdx) (hbest : ∀ b ∈ entries.zipIdx, b ≠ a → Outranks a b) :
    FirstStrongest a.1 entries := by
  obtain ⟨before, after, hsplit⟩ := List.append_of_mem ha
  have hplaces := Search.Beam.pairwise_zipIdx entries
  rw [hsplit, List.pairwise_append, List.pairwise_cons] at hplaces
  obtain ⟨-, ⟨hafter, -⟩, hbefore⟩ := hplaces
  refine ⟨before.map Prod.fst, after.map Prod.fst, ?_, ?_, ?_⟩
  · rw [← List.zipIdx_map_fst 0 entries, hsplit, List.map_append, List.map_cons]
  · intro h hh
    obtain ⟨b, hb, rfl⟩ := List.mem_map.mp hh
    have hlt : b.2 < a.2 := hbefore b hb a List.mem_cons_self
    have hout := hbest b (hsplit ▸ List.mem_append_left _ hb)
      fun heq => hlt.ne (congrArg Prod.snd heq)
    by_contra hnot
    exact hlt.asymm (hout.2 hnot)
  · intro h hh
    obtain ⟨b, hb, rfl⟩ := List.mem_map.mp hh
    have hlt : a.2 < b.2 := hafter b hb
    exact (hbest b (hsplit ▸ List.mem_append_right _ (List.mem_cons_of_mem a hb))
      fun heq => hlt.ne' (congrArg Prod.snd heq)).1

theorem best_of_ordered (h : hs.Ordered) :
    hs.entries = [] ∧ hs.best = .error .noHypothesis ∨
      ∃ e, hs.best = .ok e ∧ FirstStrongest e hs.entries := by
  have hchosen : Selects hs 1 (hs.rankedPlaces.take 1) := selects_take h 1
  have htop : hs.top 1 = (hs.rankedPlaces.take 1).map Prod.fst := top_eq h 1
  rw [best, best?, htop]
  cases hplaces : hs.rankedPlaces with
  | nil =>
      have hnil : hs.entries.zipIdx = [] := (hplaces ▸ rankedPlaces_perm).nil_eq.symm
      exact .inl ⟨List.zipIdx_eq_nil_iff.mp hnil, rfl⟩
  | cons a rest =>
      rw [hplaces, List.take_succ_cons, List.take_zero] at hchosen
      refine .inr ⟨a.1, rfl, firstStrongest_of_outranks (hchosen.mem a List.mem_cons_self) ?_⟩
      intro b hb hne
      exact hchosen.best a List.mem_cons_self b hb (List.mem_singleton.not.mpr hne)

theorem topByAge_one (h : hs.Ordered) : hs.topByAge 1 = hs.top 1 := by
  obtain ⟨byAge, hperm, -, hbyAge⟩ := topByAge_eq h 1
  rw [hbyAge, top_eq h]
  refine congrArg (List.map Prod.fst) ?_
  cases hplaces : hs.rankedPlaces with
  | nil =>
      rw [hplaces] at hperm
      exact hperm.eq_nil
  | cons a rest =>
      rw [hplaces] at hperm
      exact List.perm_singleton.mp hperm

/-- Of a container whose scores are totally ordered, the ranking gives the best entries, as many as
asked for or all, with ties in the order of addition; by age, the same ones stand in that order. The
first one of all is the oldest of the strongest, and only an empty container has none. -/
theorem top_selects (hs : Hypotheses S) (h : hs.Ordered) (k : Int) :
    (∃ chosen byAge : List (Hypothesis S × Nat),
        Selects hs k chosen ∧ hs.top k = chosen.map Prod.fst ∧
        byAge.Perm chosen ∧ byAge.Sublist hs.entries.zipIdx ∧
        hs.topByAge k = byAge.map Prod.fst) ∧
      hs.topByAge 1 = hs.top 1 ∧
      (hs.entries = [] ∧ hs.best = .error .noHypothesis ∨
        ∃ e, hs.best = .ok e ∧ FirstStrongest e hs.entries) := by
  refine ⟨?_, topByAge_one h, best_of_ordered h⟩
  obtain ⟨byAge, hperm, hsublist, hbyAge⟩ := topByAge_eq h k
  exact ⟨_, byAge, selects_take h k, top_eq h k, hperm, hsublist, hbyAge⟩

end

/-- Three entries tie for two places. -/
theorem top_selects_ties :
    let hs : Hypotheses ℝ := ⟨.logSumExp, [{ tokens := [0, 1], score := -3 },
      { tokens := [0, 3], score := -1 }, { tokens := [0, 4], score := -1 },
      { tokens := [0, 5], score := -1 }]⟩
    hs.Ordered ∧
      (∃ chosen byAge : List (Hypothesis ℝ × Nat),
        chosen.length = 2 ∧ Selects hs 2 chosen ∧ hs.top 2 = chosen.map Prod.fst ∧
        byAge.Perm chosen ∧ byAge.Sublist hs.entries.zipIdx ∧
        hs.topByAge 2 = byAge.map Prod.fst) ∧
      hs.topByAge 1 = hs.top 1 ∧ ∃ e, hs.best = .ok e ∧ FirstStrongest e hs.entries := by
  intro hs
  have hordered : hs.Ordered :=
    ⟨fun h _ => Search.isUndefined_eq_false h.score, ranked_of_linearOrder _⟩
  obtain ⟨⟨chosen, byAge, hselects, htop⟩, hone, hbest⟩ := top_selects hs hordered 2
  have hlength : chosen.length = 2 := Int.ofNat.inj hselects.size
  exact ⟨hordered, ⟨chosen, byAge, hlength, hselects, htop⟩, hone,
    hbest.resolve_left fun hnil => List.cons_ne_nil _ _ hnil.1⟩

end Hypotheses

end SpeechTransducer
