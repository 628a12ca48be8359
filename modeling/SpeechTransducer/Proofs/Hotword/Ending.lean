import Mathlib.Data.List.Infix

/-!
Beginnings of phrases and endings of token sequences. What a walk through the hotword graph has to
know of the tokens read so far is their longest ending that begins a phrase; the last theorem is the
reason why that is enough: a token more changes it in a way that depends on the ending alone.
-/

namespace SpeechTransducer.Hotword

/-- A beginning of one of the phrases. The empty sequence counts even if there are none. -/
def IsBeginning (phrases : List (List Int)) (u : List Int) : Prop :=
  u = [] ∨ ∃ p ∈ phrases, u <+: p

instance (phrases : List (List Int)) (u : List Int) : Decidable (IsBeginning phrases u) :=
  inferInstanceAs (Decidable (_ ∨ _))

/-- A phrase with at least one token. Empty phrases are ignored. -/
def IsPhrase (phrases : List (List Int)) (u : List Int) : Prop := u ≠ [] ∧ u ∈ phrases

instance (phrases : List (List Int)) (u : List Int) : Decidable (IsPhrase phrases u) :=
  inferInstanceAs (Decidable (_ ∧ _))

/-- The longest ending of a sequence with a property. The endings of a sequence other than itself
are those of its tail. -/
structure LongestEnding (P : List Int → Prop) (w u : List Int) : Prop where
  ending : u <:+ w
  holds : P u
  longest : ∀ v, v <:+ w → P v → v.length ≤ u.length

theorem isBeginning_nil (phrases : List (List Int)) : IsBeginning phrases [] := .inl rfl

theorem isBeginning_of_prefix {phrases : List (List Int)} {u v : List Int}
    (h : IsBeginning phrases v) (hu : u <+: v) : IsBeginning phrases u := by
  obtain rfl | ⟨p, hp, hv⟩ := h
  · exact .inl (List.prefix_nil.mp hu)
  · exact .inr ⟨p, hp, hu.trans hv⟩

namespace LongestEnding

variable {P : List Int → Prop} {w u v : List Int}

/-- Every ending with the property is an ending of the longest one. -/
theorem suffix (h : LongestEnding P w u) (hv : v <:+ w) (hP : P v) : v <:+ u :=
  List.suffix_of_suffix_length_le hv h.ending (h.longest v hv hP)

theorem unique (hu : LongestEnding P w u) (hv : LongestEnding P w v) : u = v :=
  (hv.suffix hu.ending hu.holds).eq_of_length_le (hu.longest v hv.ending hv.holds)

theorem self (h : P w) : LongestEnding P w w :=
  ⟨List.suffix_refl w, h, fun _ hv _ => hv.length_le⟩

theorem nil_iff : LongestEnding P [] u ↔ u = [] ∧ P [] := by
  constructor
  · intro h
    have hu := List.suffix_nil.mp h.ending
    exact ⟨hu, hu ▸ h.holds⟩
  · intro hcase
    obtain ⟨rfl, h⟩ := hcase
    exact self h

/-- If the whole sequence does not have the property, only its proper endings count. -/
theorem of_tail (hw : ¬P w) (h : LongestEnding P w.tail u) : LongestEnding P w u := by
  cases w with
  | nil => exact absurd (List.suffix_nil.mp h.ending ▸ h.holds) hw
  | cons a w =>
      refine ⟨h.ending.trans (List.suffix_cons a w), h.holds, ?_⟩
      intro v hv hP
      obtain rfl | hv := List.suffix_cons_iff.mp hv
      · exact absurd hP hw
      · exact h.longest v hv hP

theorem length_lt (hw : w ≠ []) (h : LongestEnding P w.tail u) : u.length < w.length := by
  have hle := h.ending.length_le
  have hpos := List.length_pos_iff.mpr hw
  rw [List.length_tail] at hle
  omega

/-- One token more: the longest ending of the old ending with the token is that of the whole
sequence with the token, if the property passes to beginnings. -/
theorem concat (closed : ∀ {x : List Int} {t : Int}, P (x ++ [t]) → P x) {t : Int}
    (hu : LongestEnding P w u) (hv : LongestEnding P (u ++ [t]) v) :
    LongestEnding P (w ++ [t]) v := by
  refine ⟨hv.ending.trans (List.suffix_append_self_iff.mpr hu.ending), hv.holds, ?_⟩
  intro x hx hP
  obtain rfl | ⟨y, rfl, hy⟩ := List.suffix_concat_iff.mp hx
  · exact Nat.zero_le _
  · have hyu : y <:+ u := hu.suffix hy (closed hP)
    exact hv.longest _ (List.suffix_append_self_iff.mpr hyu) hP

/-- The longest ending that begins a phrase is completed by the same phrases. -/
theorem suffix_iff {phrases : List (List Int)} (h : LongestEnding (IsBeginning phrases) w u)
    {p : List Int} (hp : IsPhrase phrases p) : p <:+ u ↔ p <:+ w :=
  ⟨fun hu => hu.trans h.ending, fun hw => h.suffix hw (.inr ⟨p, hp.2, List.prefix_refl p⟩)⟩

end LongestEnding

end SpeechTransducer.Hotword
