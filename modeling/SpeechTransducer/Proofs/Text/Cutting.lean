import Mathlib.Data.List.DropRight
import SpeechTransducer.Text.Blank
import SpeechTransducer.Text.Encoding

/-!
Texts that are put together and taken apart again. Words come apart at the blanks between them, and
lines at the ends that were put between them, as long as no word has a blank in it and no line an
end. What ends a line is a blank, so a text without blanks is part of a single line.
-/

namespace SpeechTransducer.Text

/-- Characters that make up a word. -/
structure IsWord (w : List Char) : Prop where
  ne_nil : w ≠ []
  solid : ∀ c ∈ w, isBlank c = false

instance (w : List Char) : Decidable (IsWord w) :=
  decidable_of_iff (w ≠ [] ∧ w.all (!isBlank ·) = true)
    ⟨fun h => ⟨h.1, by simpa using h.2⟩, fun h => ⟨h.ne_nil, by simpa using h.solid⟩⟩

theorem wordsOf_blank {c : Char} (hc : isBlank c = true) (cs : List Char) :
    wordsOf (c :: cs) = wordsOf cs := by
  rw [wordsOf.eq_def]
  exact if_pos hc

theorem wordsOf_last {c : Char} (hc : isBlank c = false) {rest : List Char}
    (hrest : ∀ d ∈ rest.head?, isBlank d = true) : wordsOf (c :: rest) = [c] :: wordsOf rest := by
  rw [wordsOf.eq_def]
  cases rest with
  | nil =>
      simp only [hc]
      rfl
  | cons d rest => simp [hc, hrest d rfl]

theorem wordsOf_more {c d : Char} (hc : isBlank c = false) (hd : isBlank d = false)
    {cs w : List Char} {ws : List (List Char)} (h : wordsOf (d :: cs) = w :: ws) :
    wordsOf (c :: d :: cs) = (c :: w) :: ws := by
  rw [wordsOf.eq_def]
  simp [hc, hd, h]

/-- A word goes on up to the next blank. -/
theorem wordsOf_append {w : List Char} (hw : IsWord w) {rest : List Char}
    (hrest : ∀ d ∈ rest.head?, isBlank d = true) : wordsOf (w ++ rest) = w :: wordsOf rest := by
  obtain ⟨hne, hsolid⟩ := hw
  induction w with
  | nil => exact absurd rfl hne
  | cons c w ih =>
      have hc : isBlank c = false := hsolid c List.mem_cons_self
      cases w with
      | nil => exact wordsOf_last hc hrest
      | cons d w =>
          have hd : isBlank d = false := hsolid d (by simp)
          exact wordsOf_more hc hd (ih (by simp) fun e he => hsolid e (List.mem_cons_of_mem c he))

theorem wordsOf_word {w : List Char} (hw : IsWord w) : wordsOf w = [w] := by
  have h : wordsOf (w ++ []) = w :: wordsOf [] := wordsOf_append hw (by simp)
  rwa [List.append_nil] at h

theorem isWord_of_mem_wordsOf {cs w : List Char} (h : w ∈ wordsOf cs) : IsWord w := by
  induction cs generalizing w with
  | nil => cases h
  | cons c cs ih =>
      rw [wordsOf.eq_def] at h
      dsimp only at h
      split at h
      · exact ih h
      · rename_i hc
        have hone : IsWord [c] := ⟨by simp, by simpa using hc⟩
        split at h
        · exact List.mem_singleton.mp h ▸ hone
        · split at h
          · obtain rfl | h := List.mem_cons.mp h
            · exact hone
            · exact ih h
          · split at h
            · exact List.mem_singleton.mp h ▸ hone
            · rename_i v ws hws
              obtain rfl | h := List.mem_cons.mp h
              · have hv := ih (hws ▸ List.mem_cons_self)
                exact ⟨by simp, List.forall_mem_cons.mpr ⟨by simpa using hc, hv.solid⟩⟩
              · exact ih (hws ▸ List.mem_cons_of_mem v h)

/-- Characters that neither start nor end with a blank. -/
structure IsTrimmed (cs : List Char) : Prop where
  starts : ∃ c ∈ cs.head?, isBlank c = false
  ends : ∃ c ∈ cs.getLast?, isBlank c = false

theorem isTrimmed_word {w : List Char} (hw : IsWord w) : IsTrimmed w := by
  obtain ⟨hne, hsolid⟩ := hw
  refine ⟨⟨w.head hne, List.head?_eq_some_head hne, ?_⟩,
    ⟨w.getLast hne, List.getLast?_eq_some_getLast hne, ?_⟩⟩
  · exact hsolid _ (List.head_mem hne)
  · exact hsolid _ (List.getLast_mem hne)

theorem isTrimmed_intercalate {ws : List String} (h : ∀ w ∈ ws, IsWord w.toList) (hne : ws ≠ []) :
    IsTrimmed (" ".intercalate ws).toList := by
  induction ws with
  | nil => exact absurd rfl hne
  | cons w ws ih =>
      obtain ⟨hw, hws⟩ := List.forall_mem_cons.mp h
      obtain ⟨hstarts, hends⟩ := isTrimmed_word hw
      cases ws with
      | nil => exact String.intercalate_singleton ▸ ⟨hstarts, hends⟩
      | cons w' ws =>
          obtain ⟨c, hc, hsolid⟩ := hstarts
          obtain ⟨-, d, hd, hlast⟩ := ih hws (by simp)
          rw [String.intercalate_cons_cons, String.toList_append, String.toList_append]
          refine ⟨⟨c, ?_, hsolid⟩, ⟨d, ?_, hlast⟩⟩
          · simp [List.head?_append, Option.mem_def.mp hc]
          · rw [List.getLast?_append, Option.mem_def.mp hd]
            exact Option.mem_some_self d

theorem isTrimmed_trimChars {cs : List Char} (h : trimChars cs ≠ []) :
    IsTrimmed (trimChars cs) := by
  have hends : trimChars cs <+: cs.dropWhile isBlank := List.rdropWhile_prefix isBlank _
  have hne : cs.dropWhile isBlank ≠ [] := fun hnil => h (List.prefix_nil.mp (hnil ▸ hends))
  refine ⟨⟨(trimChars cs).head h, List.head?_eq_some_head h, ?_⟩,
    ⟨(trimChars cs).getLast h, List.getLast?_eq_some_getLast h, ?_⟩⟩
  · rw [hends.head h]
    exact List.head_dropWhile_not isBlank hne
  · exact Bool.eq_false_iff.mpr (List.rdropWhile_last_not isBlank (cs.dropWhile isBlank) h)

/-- The characters of a text without the blanks around them. -/
structure IsTrim (cs text : List Char) : Prop where
  trimmed : IsTrimmed text
  around : ∃ before after, cs = before ++ text ++ after ∧
    (∀ c ∈ before, isBlank c = true) ∧ ∀ c ∈ after, isBlank c = true

theorem IsTrim.isInfix {cs text : List Char} (h : IsTrim cs text) : text <:+: cs := by
  obtain ⟨before, after, hcs, -⟩ := h.around
  exact ⟨before, after, hcs.symm⟩

theorem isTrim_trimChars {cs : List Char} (h : trimChars cs ≠ []) : IsTrim cs (trimChars cs) := by
  have hends : trimChars cs ++ (cs.dropWhile isBlank).rtakeWhile isBlank = cs.dropWhile isBlank :=
    List.rdropWhile_append_rtakeWhile
  refine ⟨isTrimmed_trimChars h, cs.takeWhile isBlank,
    (cs.dropWhile isBlank).rtakeWhile isBlank, ?_, ?_, ?_⟩
  · rw [List.append_assoc, hends, List.takeWhile_append_dropWhile]
  · exact fun c hc => List.mem_takeWhile_imp hc
  · exact fun c hc => List.mem_rtakeWhile_imp hc

theorem dropWhile_blanks {before cs : List Char} (hbefore : ∀ c ∈ before, isBlank c = true)
    (hcs : ∃ c ∈ cs.head?, isBlank c = false) : (before ++ cs).dropWhile isBlank = cs := by
  obtain ⟨c, hc, hsolid⟩ := hcs
  obtain ⟨rest, rfl⟩ := List.head?_eq_some_iff.mp hc
  rw [List.dropWhile_append_of_pos hbefore]
  exact List.dropWhile_cons_of_neg (by simp [hsolid])

theorem IsTrim.trimChars_eq {cs text : List Char} (h : IsTrim cs text) : trimChars cs = text := by
  obtain ⟨⟨hstarts, hends⟩, before, after, rfl, hbefore, hafter⟩ := h
  have hfront : (before ++ (text ++ after)).dropWhile isBlank = text ++ after := by
    obtain ⟨c, hc, hsolid⟩ := hstarts
    refine dropWhile_blanks hbefore ⟨c, ?_, hsolid⟩
    simp [List.head?_append, Option.mem_def.mp hc]
  have hback : (after.reverse ++ text.reverse).dropWhile isBlank = text.reverse := by
    refine dropWhile_blanks (by simpa using hafter) ?_
    rwa [List.head?_reverse]
  rw [trimChars, List.append_assoc, hfront, List.reverse_append, hback, List.reverse_reverse]

theorem trimChars_eq_nil_iff {cs : List Char} :
    trimChars cs = [] ↔ ∀ c ∈ cs, isBlank c = true := by
  constructor
  · intro h c hc
    have hdropped : ∀ d ∈ cs.dropWhile isBlank, isBlank d = true := List.rdropWhile_eq_nil_iff.mp h
    rw [← List.takeWhile_append_dropWhile (p := isBlank) (l := cs), List.mem_append] at hc
    obtain hc | hc := hc
    · exact List.mem_takeWhile_imp hc
    · exact hdropped c hc
  · intro h
    rw [trimChars, List.dropWhile_eq_nil_iff.mpr h]
    rfl

theorem isBlank_of_endsLine {c : Char} (h : endsLine c = true) : isBlank c = true := by
  simp only [endsLine, isBlank, Bool.or_eq_true, Bool.and_eq_true, decide_eq_true_eq,
    beq_iff_eq] at h ⊢
  omega

/-- Characters that make up a line. -/
structure IsLine (l : List Char) : Prop where
  ne_nil : l ≠ []
  unbroken : ∀ c ∈ l, endsLine c = false

theorem ne_return {c : Char} (hc : endsLine c = false) : c ≠ '\r' := by
  rintro rfl
  cases hc

theorem linesOf_last {c : Char} (hc : endsLine c = false) {cs : List Char}
    (h : linesOf cs = []) : linesOf (c :: cs) = [[c]] := by
  rw [linesOf.eq_3 c cs fun _ hreturn => absurd hreturn (ne_return hc), h]
  simp [hc]

theorem linesOf_more {c : Char} (hc : endsLine c = false) {cs l : List Char}
    {ls : List (List Char)} (h : linesOf cs = l :: ls) : linesOf (c :: cs) = (c :: l) :: ls := by
  rw [linesOf.eq_3 c cs fun _ hreturn => absurd hreturn (ne_return hc), h]
  simp [hc]

/-- A line goes on up to its end. -/
theorem linesOf_append {l : List Char} (hl : ∀ c ∈ l, endsLine c = false) (rest : List Char) :
    linesOf (l ++ '\n' :: rest) = l :: linesOf rest := by
  induction l with
  | nil => rfl
  | cons c l ih =>
      have hgo := ih fun d hd => hl d (List.mem_cons_of_mem c hd)
      exact linesOf_more (hl c List.mem_cons_self) hgo

theorem linesOf_line {l : List Char} (hl : IsLine l) : linesOf l = [l] := by
  obtain ⟨hne, hunbroken⟩ := hl
  induction l with
  | nil => exact absurd rfl hne
  | cons c l ih =>
      have hc : endsLine c = false := hunbroken c List.mem_cons_self
      cases l with
      | nil => exact linesOf_last hc rfl
      | cons d l =>
          have hgo := ih (by simp) fun e he => hunbroken e (List.mem_cons_of_mem c he)
          exact linesOf_more hc hgo

/-- Lines joined by line feeds are the lines of the text. -/
theorem lines_intercalate {ls : List String} (h : ∀ l ∈ ls, IsLine l.toList) :
    lines ("\n".intercalate ls) = ls := by
  induction ls with
  | nil => rfl
  | cons l ls ih =>
      obtain ⟨hl, hls⟩ := List.forall_mem_cons.mp h
      cases ls with
      | nil => rw [String.intercalate_singleton, lines, linesOf_line hl, List.map_singleton,
          String.ofList_toList]
      | cons l' ls =>
          have hchars : ("\n".intercalate (l :: l' :: ls)).toList =
              l.toList ++ '\n' :: ("\n".intercalate (l' :: ls)).toList := by
            rw [String.intercalate_cons_cons]
            simp
          rw [lines, hchars, linesOf_append hl.unbroken, List.map_cons, String.ofList_toList]
          exact congrArg (l :: ·) (ih hls)

theorem ne_return_of_mem_intercalate {ls : List String} (h : ∀ l ∈ ls, IsLine l.toList) {c : Char}
    (hc : c ∈ ("\n".intercalate ls).toList) : c ≠ '\r' := by
  induction ls with
  | nil => cases hc
  | cons l ls ih =>
      obtain ⟨hl, hls⟩ := List.forall_mem_cons.mp h
      cases ls with
      | nil =>
          rw [String.intercalate_singleton] at hc
          exact ne_return (hl.unbroken c hc)
      | cons l' ls =>
          rw [String.intercalate_cons_cons, String.toList_append, String.toList_append,
            List.mem_append, List.mem_append] at hc
          obtain (hc | hc) | hc := hc
          · exact ne_return (hl.unbroken c hc)
          · rintro rfl
            cases hc with
            | tail _ hc => cases hc
          · exact ih hls hc

theorem uniformLineEnds_eq_self {cs : List Char} (h : ∀ c ∈ cs, c ≠ '\r') :
    uniformLineEnds cs = cs := by
  induction cs with
  | nil => rfl
  | cons c cs ih =>
      obtain ⟨hc, hcs⟩ := List.forall_mem_cons.mp h
      rw [uniformLineEnds.eq_3 c cs (fun _ hreturn => absurd hreturn hc) hc, ih hcs]

/-- A text is read as it was written, if it has no carriage return. -/
theorem ofBytes_toUTF8 {s : String} (h : ∀ c ∈ s.toList, c ≠ '\r') : ofBytes s.toUTF8 = .ok s := by
  have hread : String.fromUTF8? s.toUTF8 = some s :=
    dif_pos s.isValidUTF8
  rw [ofBytes, hread]
  dsimp only
  rw [uniformLineEnds_eq_self h, String.ofList_toList]

end SpeechTransducer.Text
