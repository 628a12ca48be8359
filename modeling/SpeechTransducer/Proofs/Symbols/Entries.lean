import Mathlib.Data.List.Induction
import Mathlib.Data.List.Nodup
import SpeechTransducer.Symbols

/-!
The entries of a symbol table. However often numbers and symbols are repeated in what a table is
made of, it has every number once, with the symbol that was given last; and the number that answers
for a symbol has it.
-/

namespace SpeechTransducer.SymbolTable

variable {t : SymbolTable} {pairs : List (Int × String)} {id : Int} {symbol : String}

/-- The numbers of a table. -/
def ids (t : SymbolTable) : List Int := t.entries.map (·.1)

theorem lookup_cons_eq (e : Int × String) (entries : List (Int × String)) (k : Int) :
    (e :: entries).lookup k = if k = e.1 then some e.2 else entries.lookup k := by
  rw [List.lookup_cons]
  by_cases hk : k = e.1
  · rw [if_pos hk, beq_iff_eq.mpr hk]
  · rw [if_neg hk, beq_eq_false_iff_ne.mpr hk]

theorem lookup_putIn (id k : Int) (symbol : String) (entries : List (Int × String)) :
    (putIn id symbol entries).lookup k = if k = id then some symbol else entries.lookup k := by
  induction entries with
  | nil => rw [putIn, lookup_cons_eq]
  | cons e entries ih =>
      rw [putIn]
      by_cases he : e.1 = id
      · rw [if_pos he, lookup_cons_eq, lookup_cons_eq, he]
        split <;> rfl
      · rw [if_neg he, lookup_cons_eq, lookup_cons_eq, ih]
        by_cases hk : k = id
        · rw [if_pos hk, if_pos hk, if_neg (hk ▸ Ne.symm he)]
        · rw [if_neg hk, if_neg hk]

theorem map_fst_putIn (id : Int) (symbol : String) (entries : List (Int × String)) :
    (putIn id symbol entries).map (·.1) =
      if id ∈ entries.map (·.1) then entries.map (·.1) else entries.map (·.1) ++ [id] := by
  induction entries with
  | nil => rfl
  | cons e entries ih =>
      rw [putIn]
      by_cases he : e.1 = id
      · simp [he]
      · rw [if_neg he, List.map_cons, ih]
        by_cases hmem : id ∈ entries.map (·.1)
        · simp [hmem]
        · simp [hmem, Ne.symm he]

theorem putIn_of_not_mem {entries : List (Int × String)} (h : id ∉ entries.map (·.1)) :
    putIn id symbol entries = entries ++ [(id, symbol)] := by
  induction entries with
  | nil => rfl
  | cons e entries ih =>
      obtain ⟨hne, hnot⟩ := List.ne_and_not_mem_of_not_mem_cons h
      rw [putIn, if_neg (Ne.symm hne), ih hnot, List.cons_append]

theorem stored?_put (t : SymbolTable) (id k : Int) (symbol : String) :
    (t.put id symbol).stored? k = if k = id then some symbol else t.stored? k :=
  lookup_putIn id k symbol t.entries

theorem nodup_put (h : t.ids.Nodup) (id : Int) (symbol : String) : (t.put id symbol).ids.Nodup := by
  rw [ids, put, map_fst_putIn]
  split
  · exact h
  · rename_i hnot
    exact List.nodup_append.mpr ⟨h, List.nodup_singleton id, by
      rintro k hk _ hid rfl
      exact hnot (List.mem_singleton.mp hid ▸ hk)⟩

theorem mem_ids_put {k : Int} : k ∈ (t.put id symbol).ids ↔ k = id ∨ k ∈ t.ids := by
  rw [ids, put, map_fst_putIn]
  split
  · rename_i hmem
    constructor
    · exact .inr
    · rintro (rfl | hk)
      · exact hmem
      · exact hk
  · rw [List.mem_append, List.mem_singleton, or_comm]
    rfl

theorem ofPairs_concat (pairs : List (Int × String)) (p : Int × String) :
    ofPairs (pairs ++ [p]) = (ofPairs pairs).put p.1 p.2 := by
  rw [ofPairs, List.foldl_append]
  rfl

theorem nodup_ofPairs (pairs : List (Int × String)) : (ofPairs pairs).ids.Nodup := by
  induction pairs using List.reverseRecOn with
  | nil => exact List.nodup_nil
  | append_singleton pairs p ih =>
      rw [ofPairs_concat]
      exact nodup_put ih p.1 p.2

/-- Pairs whose numbers are all different are the entries of their table. -/
theorem entries_ofPairs (h : (pairs.map (·.1)).Nodup) : (ofPairs pairs).entries = pairs := by
  induction pairs using List.reverseRecOn with
  | nil => rfl
  | append_singleton pairs p ih =>
      rw [List.map_append, List.map_singleton, List.nodup_append] at h
      obtain ⟨hnodup, -, hnew⟩ := h
      have hnot : p.1 ∉ (ofPairs pairs).entries.map (·.1) := by
        rw [ih hnodup]
        exact fun hmem => hnew p.1 hmem p.1 (List.mem_singleton_self p.1) rfl
      rw [ofPairs_concat, put, putIn_of_not_mem hnot, ih hnodup]

section

variable (h : t.ids.Nodup)

include h

theorem mem_entries_iff : (id, symbol) ∈ t.entries ↔ t.stored? id = some symbol := by
  rw [stored?, List.lookup_eq_some_iff]
  constructor
  · intro hmem
    obtain ⟨before, after, hentries⟩ := List.append_of_mem hmem
    refine ⟨before, after, hentries, fun p hp => ?_⟩
    rw [ids, hentries, List.map_append, List.nodup_append] at h
    have hne : p.1 ≠ id := h.2.2 p.1 (List.mem_map_of_mem hp) id (by simp)
    simpa using hne.symm
  · rintro ⟨before, after, hentries, -⟩
    rw [hentries]
    exact List.mem_append_right before List.mem_cons_self

/-- The number that answers for a symbol has it. -/
theorem stored?_of_id? (hid : t.id? symbol = some id) : t.stored? id = some symbol := by
  rw [id?, Option.map_eq_some_iff] at hid
  obtain ⟨e, hfind, rfl⟩ := hid
  have hsymbol : e.2 = symbol := by simpa using List.find?_some hfind
  have hmem : e ∈ t.entries := List.mem_reverse.mp (List.mem_of_find?_eq_some hfind)
  rw [← mem_entries_iff h, ← hsymbol]
  exact hmem

theorem contains_iff : t.contains symbol = true ↔ ∃ id, t.stored? id = some symbol := by
  constructor
  · intro hcontains
    obtain ⟨id, hid⟩ := Option.isSome_iff_exists.mp hcontains
    exact ⟨id, stored?_of_id? h hid⟩
  · rintro ⟨id, hid⟩
    have hmem : (id, symbol) ∈ t.entries := (mem_entries_iff h).mpr hid
    rw [contains, id?, Option.isSome_map, List.find?_isSome]
    exact ⟨(id, symbol), List.mem_reverse.mpr hmem, beq_self_eq_true symbol⟩

theorem idOf_of_contains (hcontains : t.contains symbol = true) :
    ∃ id, t.idOf symbol = .ok id ∧ t.stored? id = some symbol := by
  obtain ⟨id, hid⟩ := Option.isSome_iff_exists.mp hcontains
  refine ⟨id, ?_, stored?_of_id? h hid⟩
  rw [idOf, hid]

end

end SpeechTransducer.SymbolTable
