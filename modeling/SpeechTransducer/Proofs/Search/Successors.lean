import SpeechTransducer.Proofs.Search.Beam

/-!
The paths that follow a frame. Every one of them extends a ranked path by one token, and paths with
the same tokens have become one. As many follow as extensions were chosen, or fewer.
-/

namespace SpeechTransducer

namespace Hypotheses

variable {S : Type} [Add S] [Sub S] [LT S] [DecidableLT S] [LogScale S]
variable {rule : MergeRule} {new : List (Hypothesis S)}

/-- Adding puts new tokens at the end, and changes nothing else of the tokens. -/
theorem tokens_addTo (h : Hypothesis S) (entries : List (Hypothesis S)) :
    (addTo rule h entries).map (·.tokens) =
      if h.tokens ∈ entries.map (·.tokens) then entries.map (·.tokens)
      else entries.map (·.tokens) ++ [h.tokens] := by
  induction entries with
  | nil => rfl
  | cons old rest ih =>
      rw [addTo]
      by_cases hsame : old.tokens = h.tokens
      · simp [hsame, combine]
      · have hne : ¬h.tokens = old.tokens := fun heq => hsame heq.symm
        simp only [if_neg hsame, List.map_cons, ih, List.mem_cons, hne, false_or]
        split <;> rfl

theorem ofList_induction (P : Hypotheses S → Prop) (hempty : P { rule })
    (hadd : ∀ hs, P hs → ∀ h ∈ new, P (hs.add h)) : P (ofList rule new) :=
  List.foldlRecOn new add hempty hadd

theorem nodup_ofList : ((ofList rule new).entries.map (·.tokens)).Nodup := by
  apply ofList_induction fun hs => (hs.entries.map (·.tokens)).Nodup
  · exact List.nodup_nil
  · intro hs hnodup h _
    rw [add, tokens_addTo]
    split
    · exact hnodup
    · rename_i hfresh
      refine List.nodup_append.mpr ⟨hnodup, List.nodup_singleton _, ?_⟩
      intro tokens htokens tokens' htokens' heq
      rw [List.mem_singleton.mp htokens'] at heq
      exact hfresh (heq ▸ htokens)

theorem mem_tokens_foldl_add (hs : Hypotheses S) (tokens : List Int) :
    tokens ∈ (new.foldl add hs).entries.map (·.tokens) ↔
      tokens ∈ hs.entries.map (·.tokens) ∨ ∃ h ∈ new, h.tokens = tokens := by
  induction new generalizing hs with
  | nil => simp
  | cons h rest ih =>
      have hadd : tokens ∈ (hs.add h).entries.map (·.tokens) ↔
          tokens ∈ hs.entries.map (·.tokens) ∨ h.tokens = tokens := by
        rw [add, tokens_addTo]
        split
        · rename_i hmem
          refine ⟨.inl, ?_⟩
          rintro (hin | rfl)
          · exact hin
          · exact hmem
        · rw [List.mem_append, List.mem_singleton, eq_comm (a := tokens)]
      rw [List.foldl_cons, ih, hadd, or_assoc, List.exists_mem_cons_iff]

theorem mem_tokens_ofList (tokens : List Int) :
    tokens ∈ (ofList rule new).entries.map (·.tokens) ↔ ∃ h ∈ new, h.tokens = tokens := by
  rw [ofList, mem_tokens_foldl_add]
  simp

theorem size_ofList_le : (ofList rule new).size ≤ new.length := by
  have hsub : (ofList rule new).entries.map (·.tokens) ⊆ new.map (·.tokens) := by
    intro tokens htokens
    obtain ⟨h, hh, rfl⟩ := (mem_tokens_ofList tokens).mp htokens
    exact List.mem_map_of_mem hh
  have hle := (nodup_ofList.subperm hsub).length_le
  rwa [List.length_map, List.length_map] at hle

theorem ofList_ne_nil (h : new ≠ []) : (ofList rule new).entries ≠ [] := by
  obtain ⟨first, rest, rfl⟩ := List.exists_cons_of_ne_nil h
  have hmem : first.tokens ∈ (ofList rule (first :: rest)).entries.map (·.tokens) :=
    (mem_tokens_ofList _).mpr ⟨first, List.mem_cons_self, rfl⟩
  intro hnil
  rw [hnil] at hmem
  cases hmem

end Hypotheses

namespace Search.Beam

variable {S : Type}

theorem candidates_ne_nil {rows : List (List S)} (h : ∃ row ∈ rows, row ≠ []) :
    candidates rows ≠ [] := by
  obtain ⟨row, hrow, hne⟩ := h
  obtain ⟨path, hpath⟩ := List.getElem?_of_mem hrow
  obtain ⟨score, rest, rfl⟩ := List.exists_cons_of_ne_nil hne
  have hmem : { path, token := 0, score } ∈ candidates rows := mem_candidates.mpr ⟨_, hpath, rfl⟩
  exact List.ne_nil_of_mem hmem

theorem length_candidates {rows : List (List S)} {vocabulary : Nat}
    (hrows : ∀ row ∈ rows, row.length = vocabulary) :
    (candidates rows).length = rows.length * vocabulary := by
  have hlengths : rows.zipIdx.map (fun p => (p.1.zipIdx.map fun q =>
      ({ path := p.2, token := q.2, score := q.1 } : Candidate S)).length) =
      List.replicate rows.length vocabulary := by
    rw [List.eq_replicate_iff, List.length_map, List.length_zipIdx]
    refine ⟨rfl, fun n hn => ?_⟩
    obtain ⟨p, hp, rfl⟩ := List.mem_map.mp hn
    rw [List.length_map, List.length_zipIdx]
    exact hrows p.1 (List.fst_mem_of_mem_zipIdx hp)
  rw [candidates, List.length_flatMap]
  exact (congrArg List.sum hlengths).trans (by simp)

/-- Where there is room for all extensions, all of them are chosen. -/
theorem best_perm [BEq S] [LT S] [DecidableLT S] {k : Nat} {cs : List (Candidate S)}
    (hk : cs.length ≤ k) : (best k cs).Perm cs := by
  rw [best, List.take_of_length_le (by rwa [List.length_mergeSort])]
  exact List.mergeSort_perm _ _

theorem best_length_le [BEq S] [LT S] [DecidableLT S] (k : Nat) (cs : List (Candidate S)) :
    (best k cs).length ≤ k := List.length_take_le _ _

theorem best_ne_nil [BEq S] [LT S] [DecidableLT S] {k : Nat} {cs : List (Candidate S)}
    (hk : 1 ≤ k) (hcs : cs ≠ []) : best k cs ≠ [] := by
  have hpos := List.length_pos_iff.mpr hcs
  apply List.ne_nil_of_length_pos
  rw [best, List.length_take, List.length_mergeSort]
  omega

variable {b : Settings} {graph : Option (Hotword.Graph S)} {t : Int}
variable {paths : List (Hypothesis S)} {chosen : List (Candidate S)} {hs : Hypotheses S}

section

variable [Zero S] [Add S] [Sub S] [BEq S]

/-- What becomes of the chosen extensions that belong to paths. -/
def extensions (graph : Option (Hotword.Graph S)) (t : Int) (paths : List (Hypothesis S))
    (chosen : List (Candidate S)) : List (Except Fault (Hypothesis S)) :=
  chosen.filterMap fun c => paths[c.path]?.map fun path => extend graph t path c.token c.score

/-- An emission adds the token and the time, and takes one step in the hotword graph; any other
token only makes the silence longer. -/
theorem extend_inv {path h : Hypothesis S} {token : Int} {score : S}
    (hextend : extend graph t path token score = .ok h) :
    (isEmission token = true ∧ ∃ score' state,
      h = { tokens := path.tokens ++ [token], score := score'
            timestamps := path.timestamps ++ [t], contextState := state } ∧
      ∀ g ∈ graph, ∀ old ∈ path.contextState, ∃ i, g.index old = .ok i ∧
        state = some ((g.releasingStep i token).2 : Int)) ∨
    (isEmission token = false ∧
      h = { path with score := score + 0, trailingBlanks := path.trailingBlanks + 1 }) := by
  rw [extend] at hextend
  split at hextend
  · rename_i hemission
    refine .inl ⟨hemission, ?_⟩
    dsimp only at hextend
    split at hextend
    · rename_i g old hold
      cases hindex : g.index old with
      | error e =>
          rw [hindex] at hextend
          cases hextend
      | ok i =>
          rw [hindex] at hextend
          cases hextend
          refine ⟨_, _, rfl, ?_⟩
          intro g' hg' old' hold'
          obtain rfl := Option.some.inj hg'
          obtain rfl := Option.some.inj (hold.symm.trans hold')
          exact ⟨i, hindex, rfl⟩
    · rename_i hnot
      cases hextend
      refine ⟨_, _, rfl, ?_⟩
      intro g hg old hold
      exact absurd hold (hnot g old hg)
  · rename_i hemission
    cases hextend
    exact .inr ⟨by simpa using hemission, rfl⟩

theorem extensions_cons (c : Candidate S) :
    extensions graph t paths (c :: chosen) =
      (paths[c.path]?.map fun path => extend graph t path c.token c.score).toList ++
        extensions graph t paths chosen := by
  rw [extensions, List.filterMap_cons]
  cases paths[c.path]? <;> rfl

theorem mem_extensions {x : Except Fault (Hypothesis S)} :
    x ∈ extensions graph t paths chosen ↔
      ∃ c ∈ chosen, ∃ path, paths[c.path]? = some path ∧
        extend graph t path c.token c.score = x := by
  simp only [extensions, List.mem_filterMap, Option.map_eq_some_iff]

/-- If all extensions are chosen, then every path is extended by every token. -/
theorem extensions_candidates {rows : List (List S)} (hlen : rows.length = paths.length) :
    extensions graph t paths (candidates rows) = (paths.zip rows).flatMap fun p =>
      p.2.zipIdx.map fun q => extend graph t p.1 q.2 q.1 := by
  have hzip : rows.zipIdx.map (fun p => (paths[p.2]?, p.1)) =
      (paths.zip rows).map fun p => (some p.1, p.2) := by
    apply List.ext_getElem
    · simp [hlen]
    · intro i hi hi'
      have hpath : i < paths.length := by simpa [hlen] using hi
      simp [hpath]
  calc extensions graph t paths (candidates rows)
      = (rows.zipIdx.map fun p => (paths[p.2]?, p.1)).flatMap fun p =>
          p.2.zipIdx.filterMap fun q => p.1.map fun path => extend graph t path q.2 q.1 := by
        rw [extensions, candidates, List.filterMap_flatMap, List.flatMap_map]
        simp only [List.filterMap_map, Function.comp_def]
    _ = (paths.zip rows).flatMap fun p => p.2.zipIdx.map fun q => extend graph t p.1 q.2 q.1 := by
        rw [hzip, List.flatMap_map]
        simp only [Option.map_some, List.filterMap_eq_map']

end

variable [Zero S] [Add S] [Sub S] [BEq S] [LT S] [DecidableLT S] [LogScale S]

/-- If no extension fails, then they are added one after the other. -/
theorem successors_inv (h : successors b graph t paths chosen = .ok hs) :
    ∃ new, hs = Hypotheses.ofList b.rule new ∧
      extensions graph t paths chosen = new.map .ok := by
  rw [successors] at h
  simp only [Hypotheses.ofList]
  generalize ({ rule := b.rule } : Hypotheses S) = before at h ⊢
  induction chosen generalizing before with
  | nil =>
      cases h
      exact ⟨[], rfl, rfl⟩
  | cons c chosen ih =>
      rw [List.foldlM_cons, successors.addSuccessor] at h
      rw [extensions_cons]
      cases hpath : paths[c.path]? with
      | none =>
          rw [hpath] at h
          cases h
      | some path =>
          rw [hpath] at h
          cases hextend : extend graph t path c.token c.score with
          | error e =>
              simp only [hextend] at h
              cases h
          | ok first =>
              simp only [hextend] at h
              obtain ⟨new, hnew, hall⟩ := ih (before.add first) h
              refine ⟨first :: new, hnew, ?_⟩
              rw [hall]
              simp [hextend]

/-- Only extensions of paths that are there can be added. -/
theorem path_lt_of_successors (h : successors b graph t paths chosen = .ok hs) {c : Candidate S}
    (hc : c ∈ chosen) : c.path < paths.length := by
  rw [successors] at h
  generalize ({ rule := b.rule } : Hypotheses S) = before at h
  induction chosen generalizing before with
  | nil => cases hc
  | cons first chosen ih =>
      rw [List.foldlM_cons] at h
      obtain ⟨after, hafter, h⟩ := bind_inv h
      obtain rfl | hc := List.mem_cons.mp hc
      · rw [successors.addSuccessor] at hafter
        split at hafter
        · rename_i path hpath
          exact (List.getElem?_eq_some_iff.mp hpath).1
        · cases hafter
      · exact ih hc after h

/-- What holds of all extensions of the ranked paths, and stays when two of them are merged, holds
of all paths that follow. -/
theorem forall_successors {P : Hypothesis S → Prop}
    (h : successors b graph t paths chosen = .ok hs)
    (hextend : ∀ path ∈ paths, ∀ c ∈ chosen, ∀ h,
      extend graph t path c.token c.score = .ok h → P h)
    (hcombine : ∀ old new : Hypothesis S, old.tokens = new.tokens → P old → P new →
      P (Hypotheses.combine b.rule old new)) :
    ∀ h ∈ hs.entries, P h := by
  obtain ⟨new, rfl, hall⟩ := successors_inv h
  have hnew : ∀ h ∈ new, P h := by
    intro h hh
    have hmem : .ok h ∈ extensions graph t paths chosen := hall ▸ List.mem_map_of_mem hh
    obtain ⟨c, hc, path, hpath, hext⟩ := mem_extensions.mp hmem
    exact hextend path (List.mem_of_getElem? hpath) c hc h hext
  have hrule : (Hypotheses.ofList b.rule new).rule = b.rule ∧
      ∀ h ∈ (Hypotheses.ofList b.rule new).entries, P h := by
    apply Hypotheses.ofList_induction fun hs => hs.rule = b.rule ∧ ∀ h ∈ hs.entries, P h
    · simp
    · intro hs hhs h hh
      refine ⟨hhs.1, mem_addTo (hnew h hh) ?_ hhs.2⟩
      intro old _ hsame hold
      exact hhs.1 ▸ hcombine old h hsame hold (hnew h hh)
  exact hrule.2

theorem nodup_successors (h : successors b graph t paths chosen = .ok hs) :
    (hs.entries.map (·.tokens)).Nodup := by
  obtain ⟨new, rfl, -⟩ := successors_inv h
  exact Hypotheses.nodup_ofList

theorem size_successors_le (h : successors b graph t paths chosen = .ok hs) :
    hs.size ≤ chosen.length := by
  obtain ⟨new, rfl, hall⟩ := successors_inv h
  have hlen := congrArg List.length hall
  have hle : (extensions graph t paths chosen).length ≤ chosen.length :=
    List.length_filterMap_le _ _
  rw [List.length_map] at hlen
  exact Nat.le_trans Hypotheses.size_ofList_le (hlen ▸ hle)

theorem successors_ne_nil (h : successors b graph t paths chosen = .ok hs)
    (hpath : ∃ c ∈ chosen, c.path < paths.length) : hs.entries ≠ [] := by
  obtain ⟨new, rfl, hall⟩ := successors_inv h
  obtain ⟨c, hc, hlt⟩ := hpath
  have hmem : extend graph t paths[c.path] c.token c.score ∈ extensions graph t paths chosen :=
    mem_extensions.mpr ⟨c, hc, _, List.getElem?_eq_getElem hlt, rfl⟩
  rw [hall] at hmem
  apply Hypotheses.ofList_ne_nil
  rintro rfl
  cases hmem

end Search.Beam

end SpeechTransducer
