import Mathlib.Data.List.Chain
import SpeechTransducer.Hotword.Phrases
import SpeechTransducer.Proofs.Fallible
import SpeechTransducer.Proofs.Text.Cutting

/-!
The symbols of a phrase. As characters they are the characters of its words, as subwords what its
text is taken apart into, and between ideographs, which are symbols themselves, the subwords of
every stretch. They spell the words, if subwords spell out the texts that they are asked for: then
a word mark stands before each word of a text.
-/

namespace SpeechTransducer.Hotword

/-- The characters of a stretch. -/
def Stretch.chars : Stretch → List Char
  | ideograph c => [c]
  | other cs => cs

/-- Whether a stretch lies between ideographs. -/
def Stretch.isOther : Stretch → Bool
  | ideograph _ => false
  | other _ => true

/-- A stretch is an ideograph, or has characters and none that are ideographs. -/
def Stretch.IsProper : Stretch → Prop
  | ideograph c => isIdeograph c = true
  | other cs => cs ≠ [] ∧ ∀ c ∈ cs, isIdeograph c = false

/-- Stretches of a text: each ideograph, and in full what stands between two of them. -/
structure IsCut (cs : List Char) (cut : List Stretch) : Prop where
  chars : cut.flatMap Stretch.chars = cs
  proper : ∀ s ∈ cut, s.IsProper
  apart : cut.IsChain fun s t => s.isOther = true → t.isOther = false

/-- A stretch splits into symbols: an ideograph is one, blanks have none, and those of any other
stretch are the subwords of its text without the blanks around it. -/
inductive Stretch.Splits (split : Splitter) : Stretch → List String → Prop
  | ideograph (c : Char) : Splits split (.ideograph c) [String.singleton c]
  | blank (cs : List Char) : (∀ c ∈ cs, Text.isBlank c = true) → Splits split (.other cs) []
  | other (cs : List Char) (text : String) (symbols : List String) :
      Text.IsTrim cs text.toList → split text = .ok symbols → Splits split (.other cs) symbols

/-- Words split into symbols: into their characters, into the subwords of the words with spaces
between, or into the symbols of the stretches of this text. -/
inductive Splits (splitter : Option Splitter) : ModelingUnit → List String → List String → Prop
  | character (words : List String) :
      Splits splitter .character words ((String.join words).toList.map String.singleton)
  | subword (split : Splitter) (words symbols : List String) : splitter = some split →
      split (" ".intercalate words) = .ok symbols → Splits splitter .subword words symbols
  | mixed (split : Splitter) (words : List String) (cut : List Stretch)
      (parts : List (List String)) : splitter = some split →
      IsCut (" ".intercalate words).toList cut → List.Forall₂ (Stretch.Splits split) cut parts →
      Splits splitter .mixed words parts.flatten

/-- What subwords are asked for: the words with spaces between, or the stretches of this text
between ideographs without the blanks around them. -/
inductive Asked : ModelingUnit → List String → String → Prop
  | whole (words : List String) : words ≠ [] → Asked .subword words (" ".intercalate words)
  | stretch (words : List String) (cut : List Stretch) (cs : List Char) (text : String) :
      IsCut (" ".intercalate words).toList cut → .other cs ∈ cut → Text.IsTrim cs text.toList →
      Asked .mixed words text

/-- A character as subwords have it. -/
def markSpace (c : Char) : Char := if c = ' ' then SymbolTable.wordMark else c

/-- A text behind a word mark, with word marks for its spaces. -/
def spelledOut (text : String) : String :=
  String.ofList (SymbolTable.wordMark :: text.toList.map markSpace)

/-- The subwords of a text spell it out. -/
def SpellsOut (split : Splitter) (text : String) : Prop :=
  ∀ pieces, split text = .ok pieces → String.join pieces = spelledOut text

/-- Symbols spell a stretch: an ideograph on its own, and else the text without the blanks. -/
inductive Stretch.Spelled : Stretch → List String → Prop
  | ideograph (c : Char) : Spelled (.ideograph c) [String.singleton c]
  | blank (cs : List Char) : (∀ c ∈ cs, Text.isBlank c = true) → Spelled (.other cs) []
  | other (cs : List Char) (text : String) (symbols : List String) :
      Text.IsTrim cs text.toList → String.join symbols = spelledOut text →
      Spelled (.other cs) symbols

/-- Symbols spell words. -/
def Spelled : ModelingUnit → List String → List String → Prop
  | .character, words, symbols => String.join symbols = String.join words
  | .subword, words, symbols => String.join symbols = "▁" ++ "▁".intercalate words
  | .mixed, words, symbols => ∃ cut parts, IsCut (" ".intercalate words).toList cut ∧
      symbols = parts.flatten ∧ List.Forall₂ Stretch.Spelled cut parts

variable {unit : ModelingUnit} {splitter : Option Splitter} {split : Splitter}
  {words symbols : List String}

theorem isCut_stretches (cs : List Char) : IsCut cs (stretches cs) := by
  induction cs with
  | nil => exact ⟨rfl, by simp [stretches], .nil⟩
  | cons c cs ih =>
      obtain ⟨hchars, hproper, hapart⟩ := ih
      rw [stretches]
      split
      · rename_i hc
        refine ⟨by rw [List.flatMap_cons, hchars]; rfl, ?_, hapart.cons ?_⟩
        · exact List.forall_mem_cons.mpr ⟨hc, hproper⟩
        · intro _ _ hother
          cases hother
      · rename_i hc
        have hplain : isIdeograph c = false := by simpa using hc
        split
        · rename_i ds more hcut
          rw [hcut] at hchars hproper hapart
          obtain ⟨hds, hmore⟩ := List.forall_mem_cons.mp hproper
          refine ⟨?_, List.forall_mem_cons.mpr ⟨⟨by simp, ?_⟩, hmore⟩, ?_⟩
          · rw [← hchars]
            rfl
          · exact List.forall_mem_cons.mpr ⟨hplain, hds.2⟩
          · cases more with
            | nil => exact .singleton _
            | cons t more =>
                obtain ⟨hnext, hrest⟩ := List.isChain_cons_cons.mp hapart
                exact List.isChain_cons_cons.mpr ⟨hnext, hrest⟩
        · rename_i hnone
          refine ⟨by rw [List.flatMap_cons, hchars]; rfl, ?_, hapart.cons ?_⟩
          · exact List.forall_mem_cons.mpr ⟨⟨by simp, by simpa using hplain⟩, hproper⟩
          · intro t ht _
            cases t with
            | ideograph d => rfl
            | other ds =>
                obtain ⟨more, hcut⟩ := List.head?_eq_some_iff.mp ht
                exact absurd hcut (hnone ds more)

/-- Characters that are no ideographs are one stretch, up to the next ideograph. -/
theorem stretches_append {ds cs : List Char} (hne : ds ≠ [])
    (hplain : ∀ d ∈ ds, isIdeograph d = false)
    (hnext : ∀ s ∈ (stretches cs).head?, s.isOther = false) :
    stretches (ds ++ cs) = .other ds :: stretches cs := by
  induction ds with
  | nil => exact absurd rfl hne
  | cons d ds ih =>
      obtain ⟨hd, hds⟩ := List.forall_mem_cons.mp hplain
      rw [List.cons_append, stretches, if_neg (by simp [hd])]
      cases ds with
      | nil =>
          rw [List.nil_append]
          split
          · rename_i es more hcut
            cases hnext (.other es) (by rw [hcut]; rfl)
          · rfl
      | cons e ds => rw [ih (by simp) hds]

/-- A text has one cut only. -/
theorem IsCut.eq_stretches {cs : List Char} {cut : List Stretch} (h : IsCut cs cut) :
    cut = stretches cs := by
  induction cut generalizing cs with
  | nil =>
      obtain rfl : [] = cs := h.chars
      rfl
  | cons s cut ih =>
      obtain ⟨rfl, hproper, hapart⟩ := h
      obtain ⟨hs, hcut⟩ := List.forall_mem_cons.mp hproper
      have hrest : cut = stretches (cut.flatMap Stretch.chars) := ih ⟨rfl, hcut, hapart.tail⟩
      rw [List.flatMap_cons]
      cases s with
      | ideograph c =>
          have hc : isIdeograph c = true := hs
          rw [Stretch.chars, List.singleton_append, stretches, if_pos hc, ← hrest]
      | other ds =>
          have hnext : ∀ t ∈ (stretches (cut.flatMap Stretch.chars)).head?, t.isOther = false := by
            rw [← hrest]
            exact fun t ht => (List.isChain_cons.mp hapart).1 t ht rfl
          rw [Stretch.chars, stretches_append hs.1 hs.2 hnext, ← hrest]

theorem stretchSymbols_eq_ok_iff {s : Stretch} :
    stretchSymbols split s = .ok symbols ↔ s.Splits split symbols := by
  cases s with
  | ideograph c =>
      constructor
      · intro h
        exact Except.ok.inj h ▸ .ideograph c
      · rintro ⟨⟩
        rfl
  | other cs =>
      rw [stretchSymbols]
      constructor
      · intro h
        split at h
        · rename_i hblank
          rw [← Except.ok.inj h]
          exact .blank cs (Text.trimChars_eq_nil_iff.mp (List.isEmpty_iff.mp hblank))
        · rename_i hleft
          refine .other cs _ symbols ?_ h
          rw [String.toList_ofList]
          exact Text.isTrim_trimChars fun hnil => hleft (List.isEmpty_iff.mpr hnil)
      · intro h
        cases h with
        | blank _ hblank =>
            exact if_pos (List.isEmpty_iff.mpr (Text.trimChars_eq_nil_iff.mpr hblank))
        | other _ text _ htrim hsymbols =>
            obtain ⟨c, hc, -⟩ := htrim.trimmed.starts
            rw [htrim.trimChars_eq, if_neg, String.ofList_toList, hsymbols]
            rw [List.isEmpty_iff]
            intro hnil
            rw [hnil] at hc
            cases hc

/-- The symbols of a phrase are those that its words split into. -/
theorem phraseSymbols_eq_ok_iff :
    phraseSymbols unit splitter words = .ok symbols ↔ Splits splitter unit words symbols := by
  cases unit with
  | character =>
      have hchars : (words.flatMap fun w => w.toList.map String.singleton) =
          (String.join words).toList.map String.singleton := by
        rw [String.toList_join, ← List.map_flatMap]
      constructor
      · intro h
        obtain rfl := Except.ok.inj h
        exact hchars ▸ .character words
      · rintro ⟨⟩
        exact congrArg Except.ok hchars
  | subword =>
      constructor
      · intro h
        cases splitter with
        | none => cases h
        | some split => exact .subword split words symbols rfl h
      · intro h
        cases h with
        | subword split _ _ hsplitter hsymbols =>
            rw [hsplitter]
            exact hsymbols
  | mixed =>
      constructor
      · intro h
        cases splitter with
        | none => cases h
        | some split =>
            obtain ⟨parts, hparts, hsymbols⟩ := bind_inv h
            obtain rfl := Except.ok.inj hsymbols
            refine .mixed split words _ parts rfl (isCut_stretches _) ?_
            exact (mapM_forall₂ hparts).imp fun _ _ => stretchSymbols_eq_ok_iff.mp
      · intro h
        cases h with
        | mixed split _ cut parts hsplitter hcut hparts =>
            have hmapped : cut.mapM (stretchSymbols split) = .ok parts :=
              mapM_of_forall₂ (hparts.imp fun _ _ => stretchSymbols_eq_ok_iff.mpr)
            rw [hsplitter, phraseSymbols, ← hcut.eq_stretches, hmapped]
            rfl

theorem join_singletons (cs : List Char) :
    String.join (cs.map String.singleton) = String.ofList cs := by
  induction cs with
  | nil => rfl
  | cons c cs ih => rw [List.map_cons, String.join_cons, ih, String.ofList_cons]

theorem map_markSpace_of_isWord {w : List Char} (hw : Text.IsWord w) :
    w.map markSpace = w := by
  refine (List.map_congr_left fun c hc => if_neg ?_).trans w.map_id
  rintro rfl
  cases hw.solid ' ' hc

theorem map_markSpace_intercalate (hwords : ∀ w ∈ words, Text.IsWord w.toList) :
    (" ".intercalate words).toList.map markSpace = ("▁".intercalate words).toList := by
  induction words with
  | nil => rfl
  | cons w words ih =>
      obtain ⟨hw, hwords⟩ := List.forall_mem_cons.mp hwords
      cases words with
      | nil =>
          rw [String.intercalate_singleton, String.intercalate_singleton,
            map_markSpace_of_isWord hw]
      | cons w' words =>
          rw [String.intercalate_cons_cons, String.intercalate_cons_cons, String.toList_append,
            String.toList_append, String.toList_append, String.toList_append, List.map_append,
            List.map_append, map_markSpace_of_isWord hw, ih hwords]
          rfl

/-- The symbols of a stretch spell it, if subwords spell out the text that they are asked for. -/
theorem Stretch.Splits.spelled {s : Stretch} (h : s.Splits split symbols)
    (hsplit : ∀ cs text, s = .other cs → Text.IsTrim cs text.toList → SpellsOut split text) :
    s.Spelled symbols := by
  cases h with
  | ideograph c => exact .ideograph c
  | blank cs hblank => exact .blank cs hblank
  | other cs text _ htrim hsymbols =>
      exact .other cs text symbols htrim (hsplit cs text rfl htrim symbols hsymbols)

/-- The symbols of words spell them. -/
theorem Splits.spelled (h : Splits splitter unit words symbols) (hne : words ≠ [])
    (hwords : ∀ w ∈ words, Text.IsWord w.toList)
    (hsplit : ∀ split ∈ splitter, ∀ text, Asked unit words text → SpellsOut split text) :
    Spelled unit words symbols := by
  cases h with
  | character => exact (join_singletons _).trans String.ofList_toList
  | subword split _ _ hsplitter hsymbols =>
      have htext : SpellsOut split (" ".intercalate words) :=
        hsplit split hsplitter _ (.whole words hne)
      refine (htext symbols hsymbols).trans (String.toList_inj.mp ?_)
      rw [spelledOut, map_markSpace_intercalate hwords, String.toList_ofList,
        String.toList_append]
      rfl
  | mixed split _ cut parts hsplitter hcut hparts =>
      have hasked : ∀ s ∈ cut, ∀ cs text, s = .other cs → Text.IsTrim cs text.toList →
          SpellsOut split text := by
        rintro s hs cs text rfl htrim
        exact hsplit split hsplitter text (.stretch words cut cs text hcut hs htrim)
      have hboth := (List.forall₂_and_left _ _).mpr ⟨hasked, hparts⟩
      exact ⟨cut, parts, hcut, rfl, hboth.imp fun s part hs => hs.2.spelled hs.1⟩

end SpeechTransducer.Hotword
