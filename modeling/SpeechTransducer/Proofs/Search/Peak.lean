import SpeechTransducer.Proofs.Score.Exact
import SpeechTransducer.Search.Beam

/-!
The largest score of a row, and where it comes first. A scan from left to right finds that place,
and so does a stable sort by falling scores: of equal scores the first one stays in front. Taking a
constant off all scores leaves the place as it is.
-/

namespace SpeechTransducer.Search

theorem isUndefined_eq_false (x : ℝ) : isUndefined x = false := by
  rw [isUndefined, beq_self_eq_true, Bool.not_true]

/-- A row has its largest score at a position, and only smaller ones before it. -/
structure PeakAt (row : List ℝ) (v : Nat) (x : ℝ) : Prop where
  get : row[v]? = some x
  le : ∀ y ∈ row, y ≤ x
  lt : ∀ i < v, ∀ y, row[i]? = some y → y < x

namespace PeakAt

variable {row : List ℝ} {v w : Nat} {x y : ℝ}

theorem le_position (h : PeakAt row v x) (h' : PeakAt row w y) : v ≤ w := by
  by_contra hlt
  have hsmaller : y < x := h.lt w (Nat.not_le.mp hlt) y h'.get
  exact absurd hsmaller (not_lt.mpr (h'.le x (List.mem_of_getElem? h.get)))

theorem unique (h : PeakAt row v x) (h' : PeakAt row w y) : v = w :=
  Nat.le_antisymm (h.le_position h') (h'.le_position h)

theorem singleton (x : ℝ) : PeakAt [x] 0 x where
  get := rfl
  le _ hy := (List.mem_singleton.mp hy).le
  lt i hi := absurd hi (Nat.not_lt_zero i)

theorem concat_le (h : PeakAt row v x) (hle : y ≤ x) : PeakAt (row ++ [y]) v x where
  get := by
    obtain ⟨hlt, hget⟩ := List.getElem?_eq_some_iff.mp h.get
    rw [List.getElem?_append_left hlt, h.get]
  le z hz := by
    obtain hz | hz := List.mem_append.mp hz
    · exact h.le z hz
    · exact List.mem_singleton.mp hz ▸ hle
  lt i hi z hz := by
    obtain ⟨hlt, -⟩ := List.getElem?_eq_some_iff.mp h.get
    rw [List.getElem?_append_left (hi.trans hlt)] at hz
    exact h.lt i hi z hz

theorem concat_lt (h : PeakAt row v x) (hlt : x < y) : PeakAt (row ++ [y]) row.length y where
  get := List.getElem?_concat_length
  le z hz := by
    obtain hz | hz := List.mem_append.mp hz
    · exact (h.le z hz).trans hlt.le
    · exact (List.mem_singleton.mp hz).le
  lt i hi z hz := by
    rw [List.getElem?_append_left hi] at hz
    exact (h.le z (List.mem_of_getElem? hz)).trans_lt hlt

theorem cons_le (hle : ∀ y ∈ row, y ≤ x) : PeakAt (x :: row) 0 x where
  get := rfl
  le y hy := by
    obtain rfl | hy := List.mem_cons.mp hy
    · exact le_rfl
    · exact hle y hy
  lt i hi := absurd hi (Nat.not_lt_zero i)

theorem cons_lt (h : PeakAt row v x) (hlt : y < x) : PeakAt (y :: row) (v + 1) x where
  get := h.get
  le z hz := by
    obtain rfl | hz := List.mem_cons.mp hz
    · exact hlt.le
    · exact h.le z hz
  lt i hi z hz := by
    cases i with
    | zero => exact Option.some.inj hz ▸ hlt
    | succ i => exact h.lt i (Nat.lt_of_succ_lt_succ hi) z hz

/-- A constant on top of all scores changes nothing. -/
theorem map_add (h : PeakAt row v x) (d : ℝ) : PeakAt (row.map (· + d)) v (x + d) where
  get := by rw [List.getElem?_map, h.get, Option.map_some]
  le z hz := by
    obtain ⟨y, hy, rfl⟩ := List.mem_map.mp hz
    exact add_le_add_left (h.le y hy) d
  lt i hi z hz := by
    rw [List.getElem?_map, Option.map_eq_some_iff] at hz
    obtain ⟨y, hy, rfl⟩ := hz
    exact add_lt_add_left (h.lt i hi y hy) d

end PeakAt

theorem go_peakAt {row : List ℝ} {best : ℝ} {v : Nat} (h : PeakAt row v best) (ys : List ℝ) :
    ∃ x, PeakAt (row ++ ys) (rowPeakIndex.go ys row.length best v) x := by
  induction ys generalizing row best v with
  | nil => exact ⟨best, by rwa [List.append_nil]⟩
  | cons y ys ih =>
      rw [rowPeakIndex.go, isUndefined_eq_false, isUndefined_eq_false, ← List.singleton_append,
        ← List.append_assoc]
      have hlength : row.length + 1 = (row ++ [y]).length := by simp
      simp only [Bool.false_eq_true, if_false, Bool.false_or, decide_eq_true_eq, hlength]
      split
      · rename_i hlt
        exact ih (h.concat_lt hlt)
      · rename_i hle
        exact ih (h.concat_le (not_lt.mp hle))

/-- The scan finds the first of the largest scores. -/
theorem rowPeakIndex_peakAt {row : List ℝ} (hne : row ≠ []) :
    ∃ v x, rowPeakIndex row = some v ∧ PeakAt row v x := by
  obtain ⟨x, xs, rfl⟩ := List.exists_cons_of_ne_nil hne
  obtain ⟨y, h⟩ := go_peakAt (PeakAt.singleton x) xs
  exact ⟨_, y, rfl, h⟩

namespace Beam

theorem comesBefore_eq (x y : ℝ) : comesBefore x y = decide (y < x) := by
  rw [comesBefore, isUndefined_eq_false, Bool.false_and, Bool.or_false]

/-- What a stable sort by falling scores puts in front is the first of the largest. -/
theorem peakAt_mergeSort (cs : List (Candidate ℝ)) {c : Candidate ℝ} {rest : List (Candidate ℝ)}
    (h : cs.mergeSort (fun a b => !comesBefore b.score a.score) = c :: rest) :
    ∃ v, cs[v]? = some c ∧ PeakAt (cs.map (·.score)) v c.score := by
  have htrans (a b c : Candidate ℝ) (hab : (!comesBefore b.score a.score) = true)
      (hbc : (!comesBefore c.score b.score) = true) : (!comesBefore c.score a.score) = true := by
    simp only [comesBefore_eq, Bool.not_eq_true', decide_eq_false_iff_not, not_lt] at hab hbc ⊢
    exact hbc.trans hab
  have htotal (a b : Candidate ℝ) :
      (!comesBefore b.score a.score || !comesBefore a.score b.score) = true := by
    simp only [comesBefore_eq, Bool.or_eq_true, Bool.not_eq_true', decide_eq_false_iff_not, not_lt]
    exact le_total _ _
  induction cs generalizing c rest with
  | nil =>
      rw [List.mergeSort_nil] at h
      cases h
  | cons a cs ih =>
      obtain ⟨before, after, hsort, hrest, hbefore⟩ := List.mergeSort_cons htrans htotal a cs
      have hsorted := List.pairwise_mergeSort htrans htotal (a :: cs)
      rw [hsort] at h hsorted
      -- In front of the first candidate stands only what is better, so it wins all ties.
      cases before with
      | nil =>
          obtain ⟨rfl, rfl⟩ := List.cons.inj h
          refine ⟨0, rfl, .cons_le fun y hy => ?_⟩
          obtain ⟨d, hd, rfl⟩ := List.mem_map.mp hy
          have hafter : d ∈ after := by
            rw [List.nil_append] at hrest
            exact hrest ▸ List.mem_mergeSort.mpr hd
          have hle := (List.pairwise_cons.mp hsorted).1 d hafter
          simpa [comesBefore_eq] using hle
      | cons b before =>
          obtain ⟨rfl, rfl⟩ := List.cons.inj h
          obtain ⟨v, hv, hpeak⟩ := ih hrest
          refine ⟨v + 1, hv, hpeak.cons_lt ?_⟩
          have hless := hbefore b List.mem_cons_self
          simpa [comesBefore_eq] using hless

/-- The best extension of a single path is that by the first token with the largest score. -/
theorem best_one {row : List ℝ} {v : Nat} {x : ℝ} (h : PeakAt row v x) :
    best 1 (candidates [row]) = [⟨0, v, x⟩] := by
  have hscores : (candidates [row]).map (·.score) = row := by
    simp [candidates, Function.comp_def]
  have hplace : (candidates [row])[v]? = some ⟨0, v, x⟩ := by
    simp [candidates, h.get]
  rw [best]
  cases hsort : (candidates [row]).mergeSort fun a b => !comesBefore b.score a.score with
  | nil =>
      have hperm := List.mergeSort_perm (candidates [row])
        fun a b => !comesBefore b.score a.score
      rw [hsort] at hperm
      rw [← hperm.nil_eq] at hplace
      cases hplace
  | cons c rest =>
      obtain ⟨w, hw, hpeak⟩ := peakAt_mergeSort _ hsort
      rw [hscores] at hpeak
      obtain rfl := h.unique hpeak
      obtain rfl := Option.some.inj (hplace.symm.trans hw)
      rfl

end Beam

end SpeechTransducer.Search
