import Mathlib.Data.List.Sort
import Mathlib.Order.Bounds.Basic

/-!
Scores that are ranked by their comparison. Numbers of a linear order are, and so are floating-point
numbers as long as none of them is undefined; statements that need no more than this hold of both.
A list whose elements are ranked is sorted stably: of two elements of the same rank the one that
stood in front stays in front.
-/

namespace SpeechTransducer

section

variable {S : Type} {s t : Set S} {a b c r : S}

/-- Of two scores at most one is below the other, and then a third one is above the lower or below
the higher one. -/
def Ranked [LT S] (s : Set S) : Prop :=
  ∀ a ∈ s, ∀ b ∈ s, a < b → ¬b < a ∧ ∀ c ∈ s, a < c ∨ c < b

theorem Ranked.mono [LT S] (h : Ranked t) (hst : s ⊆ t) : Ranked s :=
  fun a ha b hb hab =>
    ⟨(h a (hst ha) b (hst hb) hab).1, fun c hc => (h a (hst ha) b (hst hb) hab).2 c (hst hc)⟩

theorem Ranked.irrefl [LT S] (h : Ranked s) (hr : r ∈ s) : ¬r < r :=
  fun hlt => (h r hr r hr hlt).1 hlt

theorem Ranked.not_lt_trans [LT S] (h : Ranked s) (ha : a ∈ s) (hb : b ∈ s) (hc : c ∈ s)
    (hab : ¬a < b) (hbc : ¬b < c) : ¬a < c :=
  fun hlt => ((h a ha c hc hlt).2 b hb).elim hab hbc

theorem Ranked.not_lt_total [LT S] (h : Ranked s) (ha : a ∈ s) (hb : b ∈ s) : ¬a < b ∨ ¬b < a := by
  by_cases hlt : a < b
  · exact .inr (h a ha b hb hlt).1
  · exact .inl hlt

theorem ranked_of_linearOrder [LinearOrder S] (s : Set S) : Ranked s :=
  fun a _ _ _ hab => ⟨hab.asymm, fun c _ => (lt_or_ge a c).imp_right fun hca => hca.trans_lt hab⟩

/-- A score that is one of some scores, and no smaller than any of them if they are ranked. -/
def IsLargest [LT S] (s : Set S) (r : S) : Prop :=
  r ∈ s ∧ (Ranked s → ∀ a ∈ s, ¬r < a)

theorem isLargest_iff_isGreatest [LinearOrder S] : IsLargest s r ↔ IsGreatest s r := by
  simp only [IsLargest, ranked_of_linearOrder, true_imp_iff, not_lt, IsGreatest, mem_upperBounds]

end

section

variable {α : Type} {le : α → α → Bool} {r : α → α → Prop} {xs : List α}

/-- A sorted list is in order, and elements of the same rank stand as they stood before. -/
theorem pairwise_mergeSort_of_pairwise (htrans : ∀ a b c, le a b → le b c → le a c)
    (htotal : ∀ a b, (le a b || le b a) = true) (h : xs.Pairwise r) :
    (xs.mergeSort le).Pairwise fun a b => le a b ∧ (le b a → r a b) := by
  induction xs with
  | nil => simp
  | cons a xs ih =>
      obtain ⟨ha, h⟩ := List.pairwise_cons.mp h
      obtain ⟨before, after, hsort, hrest, hbefore⟩ := List.mergeSort_cons htrans htotal a xs
      have hsorted := List.pairwise_mergeSort htrans htotal (a :: xs)
      have hmem {b : α} (hb : b ∈ before ++ after) : b ∈ xs :=
        List.mem_mergeSort.mp (hrest ▸ hb)
      have ih := hrest ▸ ih h
      rw [hsort] at hsorted ⊢
      rw [List.pairwise_append, List.pairwise_cons] at hsorted ⊢
      rw [List.pairwise_append] at ih
      obtain ⟨-, ⟨hafter, -⟩, hacross⟩ := hsorted
      refine ⟨ih.1, ⟨fun b hb => ⟨hafter b hb, fun _ => ha b (hmem (by simp [hb]))⟩, ih.2.1⟩, ?_⟩
      intro b hb c hc
      obtain rfl | hc := List.mem_cons.mp hc
      · refine ⟨hacross b hb c List.mem_cons_self, fun hle => ?_⟩
        have hnot := hbefore b hb
        rw [hle] at hnot
        cases hnot
      · exact ih.2.2 b hb c hc

/-- It is enough that the elements of the list can be compared with each other. -/
theorem pairwise_mergeSort_on (htrans : ∀ a ∈ xs, ∀ b ∈ xs, ∀ c ∈ xs, le a b → le b c → le a c)
    (htotal : ∀ a ∈ xs, ∀ b ∈ xs, (le a b || le b a) = true) (h : xs.Pairwise r) :
    (xs.mergeSort le).Pairwise fun a b => le a b ∧ (le b a → r a b) := by
  have hattach : xs.attach.Pairwise fun a b => r a.1 b.1 := by
    rw [← List.pairwise_map (f := Subtype.val), List.attach_map_subtype_val]
    exact h
  have hsorted := pairwise_mergeSort_of_pairwise
    (fun a b c : {a // a ∈ xs} => htrans a.1 a.2 b.1 b.2 c.1 c.2)
    (fun a b => htotal a.1 a.2 b.1 b.2) hattach
  have hmap := List.map_mergeSort (r := fun a b : {a // a ∈ xs} => le a.1 b.1) (s := le)
    (f := Subtype.val) (l := xs.attach) fun _ _ _ _ => rfl
  rw [List.attach_map_subtype_val] at hmap
  rw [← hmap, List.pairwise_map]
  exact hsorted

end

end SpeechTransducer
