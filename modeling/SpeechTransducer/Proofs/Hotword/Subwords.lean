import SpeechTransducer.Proofs.Hotword.Spelling
import SpeechTransducer.Subword

/-!
What the pieces of a text spell. Merging pieces keeps their concatenation, so the pieces of a text
together are the characters that the model takes from it; and of a tidy text, one that neither
starts nor ends with a space, has no two in a row and does not end with a word mark, it takes all:
a word mark, and the text with word marks for its spaces. The texts that are asked of a model for
words without word marks are tidy.
-/

namespace SpeechTransducer.SubwordModel

open Hotword

variable {m : SubwordModel} {text : String} {pieces : List String}

theorem join_mergeAt (i : Nat) (pieces : List String) :
    String.join (mergeAt i pieces) = String.join pieces := by
  induction pieces generalizing i with
  | nil => cases i <;> rfl
  | cons a pieces ih =>
      cases i with
      | zero =>
          cases pieces with
          | nil => rfl
          | cons b rest =>
              rw [mergeAt, String.join_cons, String.join_cons, String.join_cons,
                String.append_assoc]
      | succ i => rw [mergeAt, String.join_cons, String.join_cons, ih]

theorem join_mergeAll (m : SubwordModel) (rounds : Nat) (pieces : List String) :
    String.join (m.mergeAll rounds pieces) = String.join pieces := by
  induction rounds generalizing pieces with
  | zero => rfl
  | succ rounds ih =>
      rw [mergeAll]
      cases m.bestPair? 0 pieces with
      | none => rfl
      | some best => exact (ih _).trans (join_mergeAt best.1 pieces)

theorem join_joinUnknown (m : SubwordModel) (pieces : List String) :
    String.join (m.joinUnknown pieces) = String.join pieces := by
  induction pieces with
  | nil => rfl
  | cons a pieces ih =>
      cases pieces with
      | nil => rfl
      | cons next rest =>
          rw [joinUnknown, String.join_cons, ← ih]
          cases m.joinUnknown (next :: rest) with
          | nil => exact String.join_cons
          | cons b more =>
              dsimp only
              split
              · rw [String.join_cons]
              · rw [String.join_cons, String.join_cons, String.append_assoc]

/-- Together, the pieces of a text are the characters that the model takes from it. -/
theorem join_encode (h : m.encode text = .ok pieces) :
    String.join pieces = String.ofList (marked text) := by
  rw [encode] at h
  split at h
  · cases h
  · rw [← Except.ok.inj h, join_joinUnknown, join_mergeAll, join_singletons]

/-- Characters with single spaces between others, of which the last is not a word mark. -/
structure IsTidy (cs : List Char) : Prop where
  single : cs.IsChain fun a b => a = ' ' → b ≠ ' '
  starts : cs.head? ≠ some ' '
  ends : ∃ c ∈ cs.getLast?, c ≠ ' ' ∧ c ≠ SymbolTable.wordMark

theorem markSpaces_eq_map {cs : List Char} (h : cs.IsChain fun a b => a = ' ' → b ≠ ' ') :
    markSpaces cs = cs.map markSpace := by
  induction cs with
  | nil => rfl
  | cons c cs ih =>
      have hrest : markSpaces cs = cs.map markSpace := ih h.tail
      by_cases hc : c = ' '
      · subst hc
        cases cs with
        | nil => rfl
        | cons d cs =>
            have hd : d ≠ ' ' := (List.isChain_cons_cons.mp h).1 rfl
            rw [markSpaces.eq_3 _ fun _ hcons => hd (List.cons.inj hcons).1, hrest]
            rfl
      · rw [markSpaces.eq_4 _ _ (fun _ hspace => absurd hspace hc) hc, hrest, List.map_cons,
          markSpace, if_neg hc]

theorem marked_eq_spelledOut (h : IsTidy text.toList) : marked text = (spelledOut text).toList := by
  obtain ⟨hsingle, hstarts, last, hlast, hspace, hmark⟩ := h
  rw [spelledOut, String.toList_ofList]
  cases hcs : text.toList with
  | nil =>
      rw [hcs] at hlast
      cases hlast
  | cons c cs =>
      rw [hcs] at hsingle hstarts hlast
      have hc : (c == ' ') = false := by simpa using hstarts
      have hends : (SymbolTable.wordMark :: (c :: cs).map markSpace).getLast? = some last := by
        rw [List.getLast?_cons, List.getLast?_map, Option.mem_def.mp hlast]
        simp [markSpace, hspace]
      rw [marked, hcs, List.dropWhile_cons_of_neg (by simp [hc])]
      dsimp only
      rw [markSpaces_eq_map hsingle]
      refine List.rdropWhile_eq_self_iff.mpr fun hne => ?_
      rw [List.getLast?_eq_some_getLast hne, Option.some.injEq] at hends
      rw [hends]
      simpa using hmark

theorem spellsOut_of_isTidy (m : SubwordModel) (h : IsTidy text.toList) :
    SpellsOut m.encode text := by
  intro pieces hpieces
  rw [join_encode hpieces, marked_eq_spelledOut h, String.ofList_toList]

end SpeechTransducer.SubwordModel

namespace SpeechTransducer.Hotword

variable {unit : ModelingUnit} {words : List String} {text : String}

theorem single_intercalate (hwords : ∀ w ∈ words, Text.IsWord w.toList) :
    (" ".intercalate words).toList.IsChain fun a b => a = ' ' → b ≠ ' ' := by
  have hsolid : ∀ w ∈ words, ∀ c ∈ w.toList, c ≠ ' ' := by
    rintro w hw c hc rfl
    cases (hwords w hw).solid ' ' hc
  induction words with
  | nil => exact .nil
  | cons w words ih =>
      obtain ⟨hw, hsolid⟩ := List.forall_mem_cons.mp hsolid
      obtain ⟨-, hwords⟩ := List.forall_mem_cons.mp hwords
      have hword : w.toList.IsChain fun a b => a = ' ' → b ≠ ' ' :=
        (List.pairwise_of_forall_mem_list fun a ha b _ ha' => absurd ha' (hw a ha)).isChain
      cases words with
      | nil => rwa [String.intercalate_singleton]
      | cons w' words =>
          obtain ⟨c, hc, hblank⟩ := (Text.isTrimmed_intercalate hwords (by simp)).starts
          rw [String.intercalate_cons_cons, String.toList_append, String.toList_append,
            List.append_assoc]
          refine hword.append ((ih hwords hsolid).cons ?_) ?_
          · rintro d hd - rfl
            cases (Option.mem_unique hd hc) ▸ hblank
          · intro a ha b _ hspace
            exact absurd hspace (hw a (List.mem_of_getLast? ha))

theorem Asked.isInfix (h : Asked unit words text) :
    text.toList <:+: (" ".intercalate words).toList := by
  cases h with
  | whole _ hne => exact List.infix_refl _
  | stretch _ cut cs _ hcut hmem htrim =>
      refine htrim.isInfix.trans ?_
      rw [← hcut.chars]
      exact List.infix_of_mem_flatten (List.mem_map_of_mem hmem)

theorem Asked.isTrimmed (h : Asked unit words text) (hwords : ∀ w ∈ words, Text.IsWord w.toList) :
    Text.IsTrimmed text.toList := by
  cases h with
  | whole _ hne => exact Text.isTrimmed_intercalate hwords hne
  | stretch _ cut cs _ hcut hmem htrim => exact htrim.trimmed

/-- The pieces of a text that a model is asked for spell it out, if no word has a word mark. -/
theorem Asked.spellsOut (m : SubwordModel) (h : Asked unit words text)
    (hwords : ∀ w ∈ words, Text.IsWord w.toList)
    (hunmarked : SymbolTable.wordMark ∉ (" ".intercalate words).toList) :
    SpellsOut m.encode text := by
  obtain ⟨⟨c, hc, hstarts⟩, d, hd, hends⟩ := h.isTrimmed hwords
  refine m.spellsOut_of_isTidy ⟨?_, ?_, d, hd, ?_, ?_⟩
  · exact List.IsChain.infix (single_intercalate hwords) h.isInfix
  · intro hspace
    cases (Option.mem_unique hc hspace) ▸ hstarts
  · rintro rfl
    cases hends
  · rintro rfl
    exact hunmarked (h.isInfix.subset (List.mem_of_getLast? hd))

end SpeechTransducer.Hotword
