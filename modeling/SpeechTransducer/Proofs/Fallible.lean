import Mathlib.Data.List.Forall2

/-!
Computations that may fail. One that went through went through in each of its parts, and one made of
parts goes through if each of them does.
-/

namespace SpeechTransducer

variable {ε α β : Type}

theorem bind_inv {x : Except ε α} {f : α → Except ε β} {b : β} (h : x >>= f = .ok b) :
    ∃ a, x = .ok a ∧ f a = .ok b := by
  cases x with
  | error e => cases h
  | ok a => exact ⟨a, rfl, h⟩

theorem map_inv {x : Except ε α} {f : α → β} {b : β} (h : x.map f = .ok b) :
    ∃ a, x = .ok a ∧ f a = b := by
  cases x with
  | error e => cases h
  | ok a => exact ⟨a, rfl, Except.ok.inj h⟩

theorem mapM_inv {f : α → Except ε β} {xs : List α} {ys : List β} (h : xs.mapM f = .ok ys) :
    xs.map f = ys.map .ok := by
  induction xs generalizing ys with
  | nil =>
      cases h
      rfl
  | cons x xs ih =>
      rw [List.mapM_cons] at h
      obtain ⟨y, hy, h⟩ := bind_inv h
      obtain ⟨rest, hrest, h⟩ := bind_inv h
      obtain rfl := Except.ok.inj h
      rw [List.map_cons, List.map_cons, hy, ih hrest]

theorem mapM_forall₂ {f : α → Except ε β} {xs : List α} {ys : List β} (h : xs.mapM f = .ok ys) :
    List.Forall₂ (fun x y => f x = .ok y) xs ys := by
  have hvalues : List.Forall₂ Eq (xs.map f) (ys.map .ok) := by
    rw [List.forall₂_eq_eq_eq]
    exact mapM_inv h
  exact List.forall₂_map_right_iff.mp (List.forall₂_map_left_iff.mp hvalues)

theorem mapM_of_forall₂ {f : α → Except ε β} {xs : List α} {ys : List β}
    (h : List.Forall₂ (fun x y => f x = .ok y) xs ys) : xs.mapM f = .ok ys := by
  induction h with
  | nil => rfl
  | cons hx _ ih =>
      rw [List.mapM_cons, hx, ih]
      rfl

theorem mapM_eq_map {f : α → Except ε β} {R : α → β} {xs : List α} {ys : List β}
    (h : xs.mapM f = .ok ys) (hR : ∀ x ∈ xs, ∀ y, f x = .ok y → y = R x) : ys = xs.map R := by
  have hmap := mapM_inv h
  have hvalues : xs.map f = (xs.map R).map .ok := by
    rw [List.map_map]
    refine List.map_congr_left fun x hx => ?_
    obtain ⟨y, -, hy⟩ := List.mem_map.mp (hmap ▸ List.mem_map_of_mem hx)
    rw [← hy, hR x hx y hy.symm]
    rfl
  exact List.map_injective_iff.mpr (fun _ _ => Except.ok.inj) (hmap.symm.trans hvalues)

theorem mapM_ok {f : α → Except ε β} {g : α → β} {xs : List α} (h : ∀ x ∈ xs, f x = .ok (g x)) :
    xs.mapM f = .ok (xs.map g) := by
  induction xs with
  | nil => rfl
  | cons x xs ih =>
      rw [List.mapM_cons, h x List.mem_cons_self, ih fun y hy => h y (List.mem_cons_of_mem x hy)]
      rfl

section

variable {P : β → Prop}

theorem mapM_eq_ok {f : α → Except ε β} {xs : List α} (h : ∀ x ∈ xs, ∃ y, f x = .ok y ∧ P y) :
    ∃ ys, xs.mapM f = .ok ys ∧ ∀ y ∈ ys, P y := by
  induction xs with
  | nil => exact ⟨[], rfl, by simp⟩
  | cons x xs ih =>
      obtain ⟨y, hy, hP⟩ := h x List.mem_cons_self
      obtain ⟨ys, hys, hall⟩ := ih fun z hz => h z (List.mem_cons_of_mem x hz)
      refine ⟨y :: ys, ?_, ?_⟩
      · rw [List.mapM_cons, hy, hys]
        rfl
      · intro z hz
        obtain rfl | hz := List.mem_cons.mp hz
        · exact hP
        · exact hall z hz

theorem foldlM_eq_ok {f : β → α → Except ε β} {xs : List α} {b : β} (hb : P b)
    (h : ∀ b, ∀ x ∈ xs, P b → ∃ b', f b x = .ok b' ∧ P b') :
    ∃ b', xs.foldlM f b = .ok b' ∧ P b' := by
  induction xs generalizing b with
  | nil => exact ⟨b, rfl, hb⟩
  | cons x xs ih =>
      obtain ⟨b', hb', hP⟩ := h b x List.mem_cons_self hb
      obtain ⟨b'', hb'', hP'⟩ := ih hP fun c y hy => h c y (List.mem_cons_of_mem x hy)
      refine ⟨b'', ?_, hP'⟩
      rw [List.foldlM_cons, hb']
      exact hb''

end

end SpeechTransducer
