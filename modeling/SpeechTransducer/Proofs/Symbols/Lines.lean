import Mathlib.Data.Set.Card
import SpeechTransducer.Loading
import SpeechTransducer.Proofs.Fallible
import SpeechTransducer.Proofs.Number.Written
import SpeechTransducer.Proofs.Symbols.Entries
import SpeechTransducer.Proofs.Text.Cutting

/-!
Symbol tables and the lines they are read from. A table says of a number what the last line says
that names it, and its two directions agree: a symbol is in it if and only if it is the symbol of a
number, and the number that answers for it has it. A finite map is written with one line for each
number, in any order, and the table read from these lines is the map again, whether they are read
one by one or from a file; only numbers with more digits than an integer may have are not read.
-/

namespace SpeechTransducer.SymbolTable

/-- A line names a number, with a symbol for it. -/
def Names (line : String) (id : Int) (symbol : String) : Prop :=
  readLine line = .ok (some (id, symbol))

/-- The last of some lines that names a number has this symbol for it. -/
def LastNames (lines : List String) (id : Int) (symbol : String) : Prop :=
  ∃ before line after, lines = before ++ line :: after ∧ Names line id symbol ∧
    ∀ other ∈ after, ∀ s, ¬Names other id s

/-- A table says what some lines say, and answers for numbers as it does for symbols. -/
structure Tabulates (t : SymbolTable) (lines : List String) : Prop where
  stored : ∀ id symbol, t.stored? id = some symbol ↔ LastNames lines id symbol
  size : t.size = {id | ∃ line ∈ lines, ∃ symbol, Names line id symbol}.ncard
  contains : ∀ symbol, t.contains symbol = true ↔ ∃ id, t.stored? id = some symbol
  idOf : ∀ symbol, t.contains symbol = true →
    ∃ id, t.idOf symbol = .ok id ∧ t.stored? id = some symbol

/-- The table after one more line. -/
def extend (t : SymbolTable) : Option (Int × String) → SymbolTable
  | none => t
  | some p => t.put p.1 p.2

variable {t : SymbolTable} {lines : List String} {line : String} {id : Int} {symbol : String}

theorem names_iff {named : Option (Int × String)} (hline : readLine line = .ok named) :
    Names line id symbol ↔ named = some (id, symbol) := by
  rw [Names, hline, Except.ok.injEq]

theorem lastNames_concat (lines : List String) (line : String) (id : Int) (symbol : String) :
    LastNames (lines ++ [line]) id symbol ↔
      Names line id symbol ∨ (∀ s, ¬Names line id s) ∧ LastNames lines id symbol := by
  constructor
  · rintro ⟨before, last, after, hlines, hlast, hafter⟩
    cases after using List.reverseRecOn with
    | nil =>
        obtain ⟨-, hline⟩ := List.append_inj' hlines rfl
        cases hline
        exact .inl hlast
    | append_singleton after other =>
        rw [← List.cons_append, ← List.append_assoc] at hlines
        obtain ⟨hbefore, hline⟩ := List.append_inj' hlines rfl
        cases hline
        refine .inr ⟨hafter line (by simp), before, last, after, hbefore, hlast, fun other h => ?_⟩
        exact hafter other (List.mem_append_left _ h)
  · rintro (h | ⟨hnot, before, last, after, rfl, hlast, hafter⟩)
    · exact ⟨lines, line, [], rfl, h, by simp⟩
    · refine ⟨before, last, after ++ [line], by simp, hlast, fun other h => ?_⟩
      obtain h | h := List.mem_append.mp h
      · exact hafter other h
      · exact List.mem_singleton.mp h ▸ hnot

theorem ofLines_concat_inv (h : ofLines (lines ++ [line]) = .ok t) :
    ∃ t' named, ofLines lines = .ok t' ∧ readLine line = .ok named ∧ t = t'.extend named := by
  rw [ofLines] at h
  obtain ⟨answers, hall, rfl⟩ := map_inv h
  rw [List.mapM_append] at hall
  obtain ⟨first, hfirst, hall⟩ := bind_inv hall
  obtain ⟨last, hlast, hall⟩ := bind_inv hall
  rw [← Except.ok.inj hall]
  rw [List.mapM_cons] at hlast
  obtain ⟨named, hnamed, hlast⟩ := bind_inv hlast
  obtain rfl : [named] = last := Except.ok.inj hlast
  refine ⟨ofPairs (first.filterMap fun named => named), named, ?_, hnamed, ?_⟩
  · rw [ofLines, hfirst]
    rfl
  · cases named with
    | none => simp [extend]
    | some p => simp [extend, ofPairs_concat]

theorem mem_ids_extend {named : Option (Int × String)} (hline : readLine line = .ok named)
    (t : SymbolTable) : id ∈ (t.extend named).ids ↔ (∃ s, Names line id s) ∨ id ∈ t.ids := by
  simp only [names_iff hline]
  cases named with
  | none => simp [extend]
  | some p =>
      obtain ⟨k, s⟩ := p
      rw [extend, mem_ids_put]
      simp [eq_comm]

theorem stored?_extend {named : Option (Int × String)} (hline : readLine line = .ok named)
    (t : SymbolTable) : (t.extend named).stored? id = some symbol ↔
      Names line id symbol ∨ (∀ s, ¬Names line id s) ∧ t.stored? id = some symbol := by
  simp only [names_iff hline]
  cases named with
  | none => simp [extend]
  | some p =>
      obtain ⟨k, s⟩ := p
      rw [extend, stored?_put]
      by_cases hid : id = k
      · simp [hid]
      · simp [hid, Ne.symm hid]

theorem nodup_extend (h : t.ids.Nodup) (named : Option (Int × String)) :
    (t.extend named).ids.Nodup := by
  cases named with
  | none => exact h
  | some p => exact nodup_put h p.1 p.2

/-- What is known of a table after some of its lines. -/
structure ReadFrom (t : SymbolTable) (lines : List String) : Prop where
  nodup : t.ids.Nodup
  ids : ∀ id, id ∈ t.ids ↔ ∃ line ∈ lines, ∃ symbol, Names line id symbol
  stored : ∀ id symbol, t.stored? id = some symbol ↔ LastNames lines id symbol

theorem ReadFrom.extend {named : Option (Int × String)} (h : ReadFrom t lines)
    (hline : readLine line = .ok named) : ReadFrom (t.extend named) (lines ++ [line]) where
  nodup := nodup_extend h.nodup named
  ids id := by
    rw [mem_ids_extend hline, h.ids, or_comm]
    simp [or_and_right, exists_or]
  stored id symbol := by
    rw [stored?_extend hline, lastNames_concat, h.stored]

theorem readFrom_ofLines (h : ofLines lines = .ok t) : ReadFrom t lines := by
  induction lines using List.reverseRecOn generalizing t with
  | nil =>
      cases h
      refine ⟨List.nodup_nil, ?_, ?_⟩
      · simp [ids, ofPairs]
      · simp [stored?, ofPairs, LastNames]
  | append_singleton lines line ih =>
      obtain ⟨t', named, hlines, hline, rfl⟩ := ofLines_concat_inv h
      exact (ih hlines).extend hline

theorem ReadFrom.tabulates (h : ReadFrom t lines) : Tabulates t lines where
  stored := h.stored
  size := by
    have hids : {id | ∃ line ∈ lines, ∃ symbol, Names line id symbol} = ↑t.ids.toFinset := by
      ext id
      simp [← h.ids]
    rw [hids, Set.ncard_coe_finset, List.toFinset_card_of_nodup h.nodup, SymbolTable.ids,
      List.length_map]
    rfl
  contains symbol := contains_iff h.nodup
  idOf symbol := idOf_of_contains h.nodup

/-- The line of a number and its symbol. -/
def lineOf (p : Int × String) : String := p.2 ++ " " ++ toString p.1

/-- A symbol that a line can give: it is not empty, and has no blanks. -/
abbrev IsSymbol (symbol : String) : Prop := Text.IsWord symbol.toList

theorem words_lineOf {p : Int × String} (hp : IsSymbol p.2) :
    Text.words (lineOf p) = [p.2, toString p.1] := by
  have hblank : Text.isBlank ' ' = true := by decide
  have hcut : Text.wordsOf (p.2.toList ++ ' ' :: (toString p.1).toList) =
      [p.2.toList, (toString p.1).toList] := by
    rw [Text.wordsOf_append hp (by simpa using hblank), Text.wordsOf_blank hblank,
      Text.wordsOf_word (Number.isWord_toString p.1)]
  have hchars : (lineOf p).toList = p.2.toList ++ ' ' :: (toString p.1).toList := by
    simp [lineOf]
  rw [Text.words, hchars, hcut]
  simp

theorem readLine_lineOf {p : Int × String} (hp : IsSymbol p.2) :
    readLine (lineOf p) =
      if 10 ^ Number.maxDigits ≤ p.1.natAbs then
        .error (.integerTooLong (Number.digitsOf p.1).length)
      else .ok (some p) := by
  have hmany : Number.maxDigits < (Number.digitsOf p.1).length ↔
      10 ^ Number.maxDigits ≤ p.1.natAbs := by
    rw [← not_le, Number.length_digitsOf_le_iff (by decide), not_lt]
  rw [readLine, words_lineOf hp]
  dsimp only
  rw [Number.readInteger_toString]
  simp only [hmany]
  split <;> rfl

theorem isLine_lineOf {p : Int × String} (hp : IsSymbol p.2) : Text.IsLine (lineOf p).toList := by
  have hsolid {w : List Char} (hw : Text.IsWord w) : ∀ c ∈ w, Text.endsLine c = false := by
    intro c hc
    refine Bool.eq_false_iff.mpr fun hends => ?_
    exact absurd (Text.isBlank_of_endsLine hends) (by simp [hw.solid c hc])
  have hspace : Text.endsLine ' ' = false := by decide
  refine ⟨by simp [lineOf], ?_⟩
  simp only [lineOf, String.toList_append, List.forall_mem_append]
  exact ⟨⟨hsolid hp, List.forall_mem_singleton.mpr hspace⟩, hsolid (Number.isWord_toString p.1)⟩

/-- The entries of a map, each number once, in some order. -/
structure Listing (m : Int → Option String) (pairs : List (Int × String)) : Prop where
  nodup : (pairs.map (·.1)).Nodup
  mem_iff : ∀ id symbol, (id, symbol) ∈ pairs ↔ m id = some symbol

section

variable {m : Int → Option String} {pairs : List (Int × String)}

theorem Listing.stored? (h : Listing m pairs) : (ofPairs pairs).stored? = m := by
  funext id
  refine Option.ext fun symbol => ?_
  rw [← mem_entries_iff (nodup_ofPairs pairs), entries_ofPairs h.nodup, h.mem_iff]

variable (h : ∀ p ∈ pairs, IsSymbol p.2 ∧ p.1.natAbs < 10 ^ Number.maxDigits)

include h

theorem ofLines_lineOf : ofLines (pairs.map lineOf) = .ok (ofPairs pairs) := by
  have hread : (pairs.map lineOf).mapM readLine = .ok (pairs.map some) := by
    induction pairs with
    | nil => rfl
    | cons p pairs ih =>
        obtain ⟨⟨hsymbol, hdigits⟩, hpairs⟩ := List.forall_mem_cons.mp h
        rw [List.map_cons, List.mapM_cons, readLine_lineOf hsymbol, if_neg hdigits.not_ge,
          ih hpairs]
        rfl
  rw [ofLines, hread]
  simp [Except.map]

theorem readSymbols_lineOf {N : Type} (path : String) :
    readSymbols (⟨path, some (.bytes ("\n".intercalate (pairs.map lineOf)).toUTF8)⟩ :
      Storage.Found N) = .ok (ofPairs pairs) := by
  have hlines : ∀ l ∈ pairs.map lineOf, Text.IsLine l.toList := by
    intro l hl
    obtain ⟨p, hp, rfl⟩ := List.mem_map.mp hl
    exact isLine_lineOf (h p hp).1
  have hfile : readSymbols (⟨path, some (.bytes ("\n".intercalate (pairs.map lineOf)).toUTF8)⟩ :
      Storage.Found N) =
      (Text.ofBytes ("\n".intercalate (pairs.map lineOf)).toUTF8).bind fun text =>
        ofLines (Text.lines text) := rfl
  have htext := Text.ofBytes_toUTF8 fun c => Text.ne_return_of_mem_intercalate hlines
  rw [hfile, htext]
  change ofLines (Text.lines _) = _
  rw [Text.lines_intercalate hlines, ofLines_lineOf h]

end

/-- A table read from lines says of a number what the last line says that names it, and contains the
symbols of its numbers; a map written as lines, in any order, is read back, whether from the lines
or from a file of them. -/
theorem ofLines_consistent :
    (∀ lines t, ofLines lines = .ok t → Tabulates t lines) ∧
    ∀ (m : Int → Option String) (pairs : List (Int × String)), Listing m pairs →
      (∀ id symbol, m id = some symbol → IsSymbol symbol ∧ id.natAbs < 10 ^ Number.maxDigits) →
      ∃ t, ofLines (pairs.map lineOf) = .ok t ∧ t.stored? = m ∧ t.size = pairs.length ∧
        ∀ (N : Type) (path : String), readSymbols (⟨path, some (.bytes
          ("\n".intercalate (pairs.map lineOf)).toUTF8)⟩ : Storage.Found N) = .ok t := by
  refine ⟨fun lines t h => (readFrom_ofLines h).tabulates, fun m pairs hlisting hm => ?_⟩
  have hpairs : ∀ p ∈ pairs, IsSymbol p.2 ∧ p.1.natAbs < 10 ^ Number.maxDigits := fun p hp =>
    hm p.1 p.2 ((hlisting.mem_iff p.1 p.2).mp hp)
  refine ⟨ofPairs pairs, ofLines_lineOf hpairs, hlisting.stored?, ?_, fun N path =>
    readSymbols_lineOf hpairs path⟩
  rw [size, entries_ofPairs hlisting.nodup]

theorem ofLines_consistent_repeated :
    let lines := ["x 5", "y 6", "7", "x 6", "", "y 5"]
    let m : Int → Option String := fun id =>
      if id = 7 then some "b" else if id = -3 then some "▁a" else none
    let pairs := [(7, "b"), (-3, "▁a")]
    (∃ t, ofLines lines = .ok t ∧ Tabulates t lines) ∧ Listing m pairs ∧
      (∀ id symbol, m id = some symbol → IsSymbol symbol ∧ id.natAbs < 10 ^ Number.maxDigits) ∧
      ∃ t, ofLines (pairs.map lineOf) = .ok t ∧ t.stored? = m := by
  intro lines m pairs
  have hlisting : Listing m pairs := by
    refine ⟨by decide, fun id symbol => ?_⟩
    simp only [pairs, m, List.mem_cons, Prod.mk.injEq, List.not_mem_nil, or_false]
    split
    · simp_all [eq_comm]
    · split <;> simp_all [eq_comm]
  have hm : ∀ id symbol, m id = some symbol →
      IsSymbol symbol ∧ id.natAbs < 10 ^ Number.maxDigits := by
    have hsmall {k : Nat} (hk : k < 10) : k < 10 ^ Number.maxDigits :=
      lt_of_lt_of_le hk (Nat.le_self_pow (by decide) 10)
    intro id symbol h
    simp only [m] at h
    split at h
    · cases h
      subst id
      exact ⟨by decide, hsmall (by decide)⟩
    · split at h
      · cases h
        subst id
        exact ⟨by decide, hsmall (by decide)⟩
      · cases h
  refine ⟨⟨_, rfl, ofLines_consistent.1 lines _ rfl⟩, hlisting, hm, ?_⟩
  obtain ⟨t, hread, hstored, -⟩ := ofLines_consistent.2 m pairs hlisting hm
  exact ⟨t, hread, hstored⟩

/-- A number with one digit too many is not read. -/
theorem ofLines_beyond_digits :
    let id : Int := 10 ^ Number.maxDigits
    let m : Int → Option String := fun k => if k = id then some "a" else none
    Listing m [(id, "a")] ∧ IsSymbol "a" ∧
      ofLines ([(id, "a")].map lineOf) = .error (.integerTooLong (Number.maxDigits + 1)) := by
  intro id m
  have hlisting : Listing m [(id, "a")] := by
    refine ⟨List.nodup_singleton _, fun k symbol => ?_⟩
    simp only [m, List.mem_singleton, Prod.mk.injEq]
    split <;> simp_all [eq_comm]
  have hsymbol : IsSymbol "a" := by decide
  have habs : id.natAbs = 10 ^ Number.maxDigits := by simp only [id, Int.natAbs_pow, Int.reduceAbs]
  have hcount : (Number.digitsOf id).length = Number.maxDigits + 1 := by
    refine le_antisymm ?_ ?_
    · rw [Number.length_digitsOf_le_iff (Nat.succ_pos _), habs]
      exact Nat.pow_lt_pow_right (by decide) (Nat.lt_succ_self _)
    · rw [Nat.succ_le_iff, ← not_le, Number.length_digitsOf_le_iff (by decide), habs]
      exact lt_irrefl _
  have hline := readLine_lineOf (p := (id, "a")) hsymbol
  refine ⟨hlisting, hsymbol, ?_⟩
  rw [if_pos habs.ge, hcount] at hline
  rw [ofLines, List.map_singleton, List.mapM_cons, hline]
  rfl

end SpeechTransducer.SymbolTable
