import Mathlib.Data.List.ReduceOption
import SpeechTransducer.Proofs.Hotword.Subwords
import SpeechTransducer.Proofs.Symbols.Entries

/-!
Hotword lines, read one by one. A line gives a phrase if it has words and the table has all the
symbols that they split into, and gives nothing else; what it gives is the same whatever stands in
the lines around it. The numbers of a phrase stand for these symbols, which spell the words of its
line, and its reward is the last one that the line names.
-/

namespace SpeechTransducer.Hotword

/-- Whether an item is about the reward, and no word. -/
def isReward (item : String) : Bool :=
  match item.toList with
  | ':' :: _ :: _ => true
  | _ => false

/-- The reward that an item names. -/
def itemReward? (item : String) : Option Number.Literal :=
  match item.toList with
  | ':' :: c :: cs => Number.readLiteral (String.ofList (c :: cs))
  | _ => none

/-- The words of a line. -/
def phraseWords (line : String) : List String := (Text.words line).filter (!isReward ·)

/-- The rewards that a line names. -/
def rewards (line : String) : List Number.Literal := (Text.words line).filterMap itemReward?

/-- The reward of a line: the last one it names, and zero if it names none. -/
def lineReward (line : String) : Float := (rewards line).getLast?.elim 0 Number.Literal.toFloat

/-- The phrase of a line, without its number and warnings. -/
def linePhrase (unit : ModelingUnit) (table : SymbolTable) (splitter : Option Splitter)
    (line : String) : Except Fault (Option Phrase) :=
  if (phraseWords line).isEmpty then .ok none
  else
    (phraseSymbols unit splitter (phraseWords line)).map fun symbols =>
      if symbols.all (table.contains ·) then
        some ⟨symbols.filterMap table.id?, lineReward line⟩
      else none

/-- What a line is read as: nothing if it has no words or the table lacks one of their symbols, and
else a phrase whose numbers stand for the symbols, which spell the words. -/
inductive Reading (unit : ModelingUnit) (table : SymbolTable) (splitter : Option Splitter)
    (line : String) : Option Phrase → Prop
  | blank : phraseWords line = [] → Reading unit table splitter line none
  | unknown (symbols : List String) (symbol : String) : phraseWords line ≠ [] →
      Splits splitter unit (phraseWords line) symbols → symbol ∈ symbols →
      (∀ id, table.stored? id ≠ some symbol) → Reading unit table splitter line none
  | phrase (symbols : List String) (p : Phrase) : phraseWords line ≠ [] →
      Splits splitter unit (phraseWords line) symbols →
      p.tokens.map table.stored? = symbols.map some → Spelled unit (phraseWords line) symbols →
      p.score = lineReward line → Reading unit table splitter line (some p)

/-- What a line gives is what it is read as, and what it gives on its own. -/
structure Gives (unit : ModelingUnit) (table : SymbolTable) (splitter : Option Splitter)
    (line : String) (phrase : Option Phrase) : Prop where
  reading : Reading unit table splitter line phrase
  alone : (encode unit.name table splitter [line]).2 = .ok phrase.toList

variable {unit : ModelingUnit} {table : SymbolTable} {splitter : Option Splitter}
  {lines : List String} {line : String} {phrases : List Phrase}

theorem read_item (number : Nat) (items : Items) (item : String) :
    (items.read number item).words = items.words ++ [item].filter (!isReward ·) ∧
      (items.read number item).score =
        (itemReward? item).elim items.score Number.Literal.toFloat := by
  by_cases hitem : ∃ c cs, item.toList = ':' :: c :: cs
  · obtain ⟨c, cs, hitem⟩ := hitem
    have hreward : isReward item = true := by simp [isReward, hitem]
    have hnamed : itemReward? item = Number.readLiteral (String.ofList (c :: cs)) := by
      simp [itemReward?, hitem]
    rw [List.filter_cons_of_neg (by simp [hreward]), List.filter_nil, List.append_nil, hnamed,
      Items.read, hitem]
    simp only [Number.readFloat]
    generalize Number.readLiteral (String.ofList (c :: cs)) = named
    cases named with
    | none => simp
    | some literal => simp
  · have hword : ∀ c cs, item.toList ≠ ':' :: c :: cs := fun c cs h => hitem ⟨c, cs, h⟩
    have hreward : isReward item = false := by simp [isReward]
    have hnamed : itemReward? item = none := by simp [itemReward?]
    rw [List.filter_cons_of_pos (by simp [hreward]), List.filter_nil, hnamed, Items.read]
    split
    · rename_i c cs h
      exact absurd h (hword c cs)
    · exact ⟨rfl, rfl⟩

theorem read_items (number : Nat) (items : Items) (xs : List String) :
    (xs.foldl (Items.read number) items).words = items.words ++ xs.filter (!isReward ·) ∧
      (xs.foldl (Items.read number) items).score =
        (xs.filterMap itemReward?).getLast?.elim items.score Number.Literal.toFloat := by
  induction xs generalizing items with
  | nil => exact ⟨(List.append_nil _).symm, rfl⟩
  | cons x xs ih =>
      obtain ⟨hwords, hscore⟩ := read_item number items x
      obtain ⟨hmore, hlast⟩ := ih (items.read number x)
      rw [List.foldl_cons]
      constructor
      · rw [hmore, hwords, List.append_assoc, ← List.filter_append, List.singleton_append]
      · rw [hlast, hscore, List.filterMap_cons]
        cases itemReward? x with
        | none => rfl
        | some literal =>
            dsimp only
            rw [List.getLast?_cons]
            cases (xs.filterMap itemReward?).getLast? <;> rfl

theorem readLine_phrase (number : Nat) (line : String) :
    (readLine unit table splitter number line).2 = linePhrase unit table splitter line := by
  obtain ⟨hwords, hscore⟩ := read_items number {} (Text.words line)
  rw [readLine, linePhrase]
  generalize (Text.words line).foldl (Items.read number) {} = items at hwords hscore
  obtain ⟨words, score, warnings⟩ := items
  obtain rfl : words = phraseWords line := hwords
  obtain rfl : score = lineReward line := hscore
  dsimp only
  split
  · rfl
  · cases phraseSymbols unit splitter (phraseWords line) with
    | error f => rfl
    | ok symbols =>
        have hmissing : (symbols.filter (!table.contains ·)).isEmpty =
            symbols.all (table.contains ·) := by
          rw [Bool.eq_iff_iff, List.isEmpty_iff, List.filter_eq_nil_iff, List.all_eq_true]
          simp
        dsimp only [Except.map]
        rw [hmissing]
        split <;> rfl

/-- The phrases of lines are those of the lines one by one. -/
theorem readLines_phrases (number : Nat) (lines : List String) :
    (readLines unit table splitter number lines).2 =
      (lines.mapM (linePhrase unit table splitter)).map List.reduceOption := by
  induction lines generalizing number with
  | nil => rfl
  | cons line lines ih =>
      rw [readLines, List.mapM_cons, ← readLine_phrase number line]
      obtain ⟨warnings, phrase⟩ := readLine unit table splitter number line
      cases phrase with
      | error f => rfl
      | ok phrase =>
          dsimp only
          rw [ih]
          cases lines.mapM (linePhrase unit table splitter) with
          | error f => rfl
          | ok more => cases phrase <;> rfl

theorem named_name (unit : ModelingUnit) : ModelingUnit.named unit.name = .ok unit := by
  cases unit <;> rfl

theorem encode_phrases (unit : ModelingUnit) (table : SymbolTable) (splitter : Option Splitter)
    (lines : List String) : (encode unit.name table splitter lines).2 =
      (lines.mapM (linePhrase unit table splitter)).map List.reduceOption := by
  rw [encode, named_name]
  exact readLines_phrases 1 lines

theorem encode_inv (h : (encode unit.name table splitter lines).2 = .ok phrases) :
    ∃ found, lines.mapM (linePhrase unit table splitter) = .ok found ∧
      found.reduceOption = phrases := by
  rw [encode_phrases] at h
  exact map_inv h

theorem mem_phrases_iff (h : (encode unit.name table splitter lines).2 = .ok phrases) {p : Phrase} :
    p ∈ phrases ↔ ∃ line ∈ lines, linePhrase unit table splitter line = .ok (some p) := by
  obtain ⟨found, hfound, rfl⟩ := encode_inv h
  have hmem : some p ∈ found ↔
      Except.ok (some p) ∈ lines.map (linePhrase unit table splitter) := by
    rw [mapM_inv hfound, List.mem_map]
    simp
  rw [List.reduceOption_mem_iff, hmem, List.mem_map]

theorem isWord_of_mem_phraseWords {word : String} (h : word ∈ phraseWords line) :
    Text.IsWord word.toList := by
  obtain ⟨w, hw, rfl⟩ := List.mem_map.mp (List.mem_of_mem_filter h)
  rw [String.toList_ofList]
  exact Text.isWord_of_mem_wordsOf hw

/-- The numbers of known symbols stand for these symbols. -/
theorem map_stored?_filterMap (htable : table.ids.Nodup) {symbols : List String}
    (h : ∀ symbol ∈ symbols, table.contains symbol = true) :
    (symbols.filterMap table.id?).map table.stored? = symbols.map some := by
  induction symbols with
  | nil => rfl
  | cons symbol symbols ih =>
      obtain ⟨hsymbol, hrest⟩ := List.forall_mem_cons.mp h
      obtain ⟨id, hid⟩ := Option.isSome_iff_exists.mp hsymbol
      rw [List.filterMap_cons_some hid, List.map_cons, List.map_cons, ih hrest,
        SymbolTable.stored?_of_id? htable hid]

theorem linePhrase_cases {phrase : Option Phrase}
    (h : linePhrase unit table splitter line = .ok phrase) :
    phraseWords line = [] ∧ phrase = none ∨
      ∃ symbols, phraseWords line ≠ [] ∧ Splits splitter unit (phraseWords line) symbols ∧
        phrase = if symbols.all (table.contains ·) then
          some ⟨symbols.filterMap table.id?, lineReward line⟩ else none := by
  rw [linePhrase] at h
  split at h
  · rename_i hblank
    exact .inl ⟨List.isEmpty_iff.mp hblank, (Except.ok.inj h).symm⟩
  · rename_i hwords
    have hne : phraseWords line ≠ [] := fun hnil => hwords (List.isEmpty_iff.mpr hnil)
    obtain ⟨symbols, hsymbols, hphrase⟩ := map_inv h
    exact .inr ⟨symbols, hne, phraseSymbols_eq_ok_iff.mp hsymbols, hphrase.symm⟩

/-- A line is read as it should be, if subwords spell out what they are asked for. -/
theorem reading_of_linePhrase (htable : table.ids.Nodup) {phrase : Option Phrase}
    (h : linePhrase unit table splitter line = .ok phrase)
    (hsplit : ∀ split ∈ splitter, ∀ text, Asked unit (phraseWords line) text →
      SpellsOut split text) : Reading unit table splitter line phrase := by
  obtain ⟨hblank, rfl⟩ | ⟨symbols, hne, hsymbols, rfl⟩ := linePhrase_cases h
  · exact .blank hblank
  · have hspelled : Spelled unit (phraseWords line) symbols :=
      hsymbols.spelled hne (fun _ => isWord_of_mem_phraseWords) hsplit
    split
    · rename_i hknown
      rw [List.all_eq_true] at hknown
      exact .phrase symbols _ hne hsymbols (map_stored?_filterMap htable hknown) hspelled rfl
    · rename_i hunknown
      obtain ⟨symbol, hmem, hnot⟩ : ∃ symbol ∈ symbols, ¬table.contains symbol = true := by
        simpa using hunknown
      rw [SymbolTable.contains_iff htable] at hnot
      exact .unknown symbols symbol hne hsymbols hmem fun id hid => hnot ⟨id, hid⟩

theorem gives_of_linePhrase (htable : table.ids.Nodup) {phrase : Option Phrase}
    (h : linePhrase unit table splitter line = .ok phrase)
    (hsplit : ∀ split ∈ splitter, ∀ text, Asked unit (phraseWords line) text →
      SpellsOut split text) : Gives unit table splitter line phrase := by
  refine ⟨reading_of_linePhrase htable h hsplit, ?_⟩
  rw [encode_phrases, List.mapM_cons, h]
  cases phrase <;> rfl

/-- The phrases of hotword lines are those that the lines give one by one. -/
theorem encode_faithful {pairs : List (Int × String)}
    (h : (encode unit.name (.ofPairs pairs) splitter lines).2 = .ok phrases)
    (hsplit : ∀ split ∈ splitter, ∀ line ∈ lines, ∀ text,
      Asked unit (phraseWords line) text → SpellsOut split text) :
    ∃ found, List.Forall₂ (Gives unit (.ofPairs pairs) splitter) lines found ∧
      phrases = found.reduceOption := by
  obtain ⟨found, hfound, rfl⟩ := encode_inv h
  have hasked : ∀ line ∈ lines, ∀ split ∈ splitter, ∀ text,
      Asked unit (phraseWords line) text → SpellsOut split text :=
    fun line hline split hmem => hsplit split hmem line hline
  have hboth := (List.forall₂_and_left _ _).mpr ⟨hasked, mapM_forall₂ hfound⟩
  refine ⟨found, hboth.imp fun line phrase hline => ?_, rfl⟩
  exact gives_of_linePhrase (SymbolTable.nodup_ofPairs pairs) hline.2 hline.1

theorem encode_faithful_mixed :
    rewards "a :9 你 :x a :2" = [.decimal false 9 1 0, .decimal false 2 1 0] ∧
    ∃ found, List.Forall₂
        (Gives .mixed (.ofPairs [(1, "▁a"), (2, "你"), (3, "▁zz"), (4, "你"), (3, "b")])
          (some (SubwordModel.encode ⟨[("▁a", 0)]⟩)))
        ["a :9 你 :x a :2", "", "zz", "你"] found ∧
      [⟨[1, 4, 1], lineReward "a :9 你 :x a :2"⟩, ⟨[4], lineReward "你"⟩] =
        found.reduceOption := by
  have hunmarked : ∀ line ∈ ["a :9 你 :x a :2", "", "zz", "你"],
      SymbolTable.wordMark ∉ (" ".intercalate (phraseWords line)).toList := by
    decide
  refine ⟨by decide +kernel, encode_faithful ?_ fun split hsplit line hline text hasked => ?_⟩
  · rw [encode_phrases]
    rfl
  · obtain rfl := Option.some.inj hsplit
    exact hasked.spellsOut _ (fun _ => isWord_of_mem_phraseWords) (hunmarked line hline)

end SpeechTransducer.Hotword
