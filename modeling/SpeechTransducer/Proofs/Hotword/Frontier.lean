import Mathlib.Data.Finset.Card
import Mathlib.Data.List.Infix

/-!
The order in which links are set, seen as a search through the sequences of an arena. The queue
holds sequences, nearest to the root first. A sequence waits as long as a proper beginning of it is
queued; it is dealt with when its parent leaves the queue, and then it is queued itself.
-/

namespace SpeechTransducer.Hotword

/-- Whether a proper beginning of a sequence is queued. -/
def Waits (queue : List (List Int)) (v : List Int) : Prop := ∃ u ∈ queue, u <+: v ∧ u ≠ v

/-- What holds of the queue between two steps. -/
structure Frontier (paths queue : List (List Int)) : Prop where
  ne_nil : [] ∉ queue
  nodup : queue.Nodup
  sorted : queue.Pairwise fun u v => u.length ≤ v.length
  span : ∀ u ∈ queue, ∀ v ∈ queue, v.length ≤ u.length + 1
  apart : ∀ u ∈ queue, ¬Waits queue u
  shallow : ∀ v ∈ paths, v ≠ [] → ¬Waits queue v → ∀ u ∈ queue, v.length ≤ u.length + 1

namespace Frontier

variable {paths queue kids : List (List Int)} {u v : List Int}

theorem length_le (h : Frontier paths (u :: queue)) (hv : v ∈ queue) : u.length ≤ v.length :=
  List.rel_of_pairwise_cons h.sorted hv

/-- What is no deeper than the front of the queue does not wait. -/
theorem not_waits (h : Frontier paths (u :: queue)) (hv : v.length ≤ u.length) :
    ¬Waits (u :: queue) v := by
  intro hwaits
  obtain ⟨w, hw, hwv, hne⟩ := hwaits
  have hlt : w.length < v.length := lt_of_le_of_ne hwv.length_le fun hl => hne (hwv.eq_of_length hl)
  obtain rfl | hw := List.mem_cons.mp hw
  · omega
  · have huw := h.length_le hw
    omega

section

variable (closed : ∀ {u v : List Int}, v ∈ paths → u <+: v → u ∈ paths)
variable (mem_kids : ∀ v, v ∈ kids ↔ v ∈ paths ∧ ∃ t, v = u ++ [t])

include mem_kids in
private theorem kid_waits (hv : v ∈ kids) : Waits (u :: queue) v := by
  obtain ⟨-, t, rfl⟩ := (mem_kids v).mp hv
  exact ⟨u, by simp, List.prefix_append _ _, by simp⟩

include closed mem_kids in
/-- When the front leaves and its children come in, exactly those children stop to wait. -/
theorem waits_iff (h : Frontier paths (u :: queue)) (hv : v ∈ paths) :
    Waits (queue ++ kids) v ↔ Waits (u :: queue) v ∧ v ∉ kids := by
  constructor
  · intro hwaits
    obtain ⟨w, hw, hwv, hne⟩ := hwaits
    have hlt : w.length < v.length :=
      lt_of_le_of_ne hwv.length_le fun hl => hne (hwv.eq_of_length hl)
    obtain hw | hw := List.mem_append.mp hw
    · refine ⟨⟨w, List.mem_cons_of_mem _ hw, hwv, hne⟩, ?_⟩
      intro hkid
      obtain ⟨-, t, rfl⟩ := (mem_kids v).mp hkid
      have hwu : w <+: u := (List.prefix_concat_iff.mp hwv).resolve_left hne
      obtain rfl : w = u := hwu.eq_of_length_le (h.length_le hw)
      exact (List.nodup_cons.mp h.nodup).1 hw
    · obtain ⟨-, t, rfl⟩ := (mem_kids w).mp hw
      rw [List.length_append, List.length_singleton] at hlt
      refine ⟨⟨u, by simp, (List.prefix_append _ _).trans hwv, ?_⟩, ?_⟩
      · intro heq
        subst heq
        omega
      · intro hkid
        obtain ⟨-, t', rfl⟩ := (mem_kids v).mp hkid
        simp at hlt
  · intro hwaits
    obtain ⟨⟨w, hw, hwv, hne⟩, hkid⟩ := hwaits
    obtain rfl | hw := List.mem_cons.mp hw
    · obtain ⟨r, rfl⟩ := hwv
      cases r with
      | nil => simp at hne
      | cons t r =>
          rw [List.append_cons] at hv hkid ⊢
          have hmem : w ++ [t] ∈ kids :=
            (mem_kids _).mpr ⟨closed hv (List.prefix_append _ _), t, rfl⟩
          refine ⟨w ++ [t], List.mem_append_right _ hmem, List.prefix_append _ _, ?_⟩
          intro heq
          exact hkid (heq ▸ hmem)
    · exact ⟨w, List.mem_append_left _ hw, hwv, hne⟩

include closed mem_kids in
theorem pop (h : Frontier paths (u :: queue)) (sub : ∀ v ∈ queue, v ∈ paths) (hk : kids.Nodup) :
    Frontier paths (queue ++ kids) := by
  have hwaits {v : List Int} (hv : v ∈ paths) := h.waits_iff (v := v) closed mem_kids hv
  have hlen {v : List Int} (hv : v ∈ kids) : v.length = u.length + 1 := by
    obtain ⟨-, t, rfl⟩ := (mem_kids v).mp hv
    simp
  have hspan {v : List Int} (hv : v ∈ queue) : u.length ≤ v.length ∧ v.length ≤ u.length + 1 :=
    ⟨h.length_le hv, h.span u (by simp) v (by simp [hv])⟩
  constructor
  case ne_nil =>
    rw [List.mem_append, not_or]
    refine ⟨fun hnil => h.ne_nil (by simp [hnil]), fun hnil => ?_⟩
    have hl := hlen hnil
    simp at hl
  case nodup =>
    rw [List.nodup_append]
    refine ⟨(List.nodup_cons.mp h.nodup).2, hk, ?_⟩
    intro v hv w hw heq
    subst heq
    exact h.apart v (by simp [hv]) (kid_waits mem_kids hw)
  case sorted =>
    rw [List.pairwise_append]
    refine ⟨(List.pairwise_cons.mp h.sorted).2, ?_, ?_⟩
    · exact List.pairwise_of_forall_mem_list fun v hv w hw => by rw [hlen hv, hlen hw]
    · intro v hv w hw
      rw [hlen hw]
      exact (hspan hv).2
  case span =>
    intro v hv w hw
    rw [List.mem_append] at hv hw
    obtain hv | hv := hv <;> obtain hw | hw := hw
    · have hv := hspan hv
      have hw := hspan hw
      omega
    · have hv := hspan hv
      rw [hlen hw]
      omega
    · have hw := hspan hw
      rw [hlen hv]
      omega
    · rw [hlen hv, hlen hw]
      omega
  case apart =>
    intro v hv
    obtain hv | hv := List.mem_append.mp hv
    · rw [hwaits (sub v hv)]
      exact fun hw => h.apart v (by simp [hv]) hw.1
    · rw [hwaits ((mem_kids v).mp hv).1]
      exact fun hw => hw.2 hv
  case shallow =>
    intro v hv hne hw x hx
    have hvu : v.length ≤ u.length + 1 := by
      by_cases hkid : v ∈ kids
      · exact (hlen hkid).le
      · rw [hwaits hv, not_and_not_right] at hw
        exact h.shallow v hv hne (fun hwait => hkid (hw hwait)) u (by simp)
    obtain hx | hx := List.mem_append.mp hx
    · have hx := hspan hx
      omega
    · rw [hlen hx]
      omega

end

/-- Below the queued children of the root everything waits. -/
theorem not_waits_start (closed : ∀ {u v : List Int}, v ∈ paths → u <+: v → u ∈ paths)
    (mem_kids : ∀ v, v ∈ kids ↔ v ∈ paths ∧ ∃ t, v = [] ++ [t])
    (hv : v ∈ paths) (hne : v ≠ []) (hw : ¬Waits kids v) : v ∈ kids := by
  cases v with
  | nil => exact absurd rfl hne
  | cons t r =>
      have hpre : [t] <+: t :: r := List.prefix_append [t] r
      have hmem : [t] ∈ kids := (mem_kids _).mpr ⟨closed hv hpre, t, rfl⟩
      by_cases heq : [t] = t :: r
      · exact heq ▸ hmem
      · exact absurd ⟨[t], hmem, hpre, heq⟩ hw

/-- The queue before the first step. -/
theorem start (closed : ∀ {u v : List Int}, v ∈ paths → u <+: v → u ∈ paths)
    (mem_kids : ∀ v, v ∈ kids ↔ v ∈ paths ∧ ∃ t, v = [] ++ [t]) (hk : kids.Nodup) :
    Frontier paths kids := by
  have hlen {v : List Int} (hv : v ∈ kids) : v.length = 1 := by
    obtain ⟨-, t, rfl⟩ := (mem_kids v).mp hv
    rfl
  constructor
  case ne_nil =>
    intro hnil
    have hl := hlen hnil
    simp at hl
  case nodup => exact hk
  case sorted =>
    exact List.pairwise_of_forall_mem_list fun v hv w hw => by rw [hlen hv, hlen hw]
  case span =>
    intro v hv w hw
    rw [hlen hv, hlen hw]
    omega
  case apart =>
    intro v hv hw
    obtain ⟨w, hw, hwv, hne⟩ := hw
    exact hne (hwv.eq_of_length ((hlen hw).trans (hlen hv).symm))
  case shallow =>
    intro v hv hne hw u _
    rw [hlen (not_waits_start closed mem_kids hv hne hw)]
    omega

/-- The sequences that have not left the queue. -/
def left (paths queue : List (List Int)) : Finset (List Int) :=
  paths.toFinset.filter fun v => ∃ u ∈ queue, u <+: v

theorem mem_left : v ∈ left paths queue ↔ v ∈ paths ∧ (v ∈ queue ∨ Waits queue v) := by
  rw [left, Finset.mem_filter, List.mem_toFinset]
  refine and_congr_right fun _ => ?_
  constructor
  · intro hwaits
    obtain ⟨u, hu, huv⟩ := hwaits
    by_cases heq : u = v
    · exact .inl (heq ▸ hu)
    · exact .inr ⟨u, hu, huv, heq⟩
  · intro hwaits
    obtain hv | ⟨u, hu, huv, -⟩ := hwaits
    · exact ⟨v, hv, List.prefix_refl v⟩
    · exact ⟨u, hu, huv⟩

theorem card_left_le : (left paths queue).card ≤ paths.length :=
  (Finset.card_filter_le _ _).trans (List.toFinset_card_le paths)

/-- One sequence less is left after every step. -/
theorem left_pop (closed : ∀ {u v : List Int}, v ∈ paths → u <+: v → u ∈ paths)
    (mem_kids : ∀ v, v ∈ kids ↔ v ∈ paths ∧ ∃ t, v = u ++ [t])
    (h : Frontier paths (u :: queue)) :
    left paths (queue ++ kids) ⊆ (left paths (u :: queue)).erase u := by
  intro v hv
  rw [mem_left] at hv
  obtain ⟨hmem, hv⟩ := hv
  rw [Finset.mem_erase, mem_left]
  obtain hv | hv := hv
  · obtain hv | hv := List.mem_append.mp hv
    · refine ⟨?_, hmem, .inl (List.mem_cons_of_mem _ hv)⟩
      intro heq
      subst heq
      exact (List.nodup_cons.mp h.nodup).1 hv
    · refine ⟨?_, hmem, .inr (kid_waits mem_kids hv)⟩
      intro heq
      subst heq
      obtain ⟨-, t, ht⟩ := (mem_kids v).mp hv
      simp at ht
  · rw [h.waits_iff closed mem_kids hmem] at hv
    refine ⟨?_, hmem, .inr hv.1⟩
    intro heq
    subst heq
    exact h.not_waits le_rfl hv.1

end Frontier

end SpeechTransducer.Hotword
