import SpeechTransducer.Proofs.Score.Ranked
import SpeechTransducer.Proofs.Search.Chunks
import SpeechTransducer.Proofs.Search.Frames
import SpeechTransducer.Proofs.Search.Peak

/-!
What one frame selects and how it groups it. Of the extensions of all ranked paths by all tokens
those with the highest scores are chosen, and ties go to the higher-ranked path and then to the
smaller token. The paths that the chosen extensions lead to are merged where their tokens are the
same; the merged paths stand in the order in which the first, and so the best, extension to their
tokens was chosen.
-/

namespace SpeechTransducer

namespace Hypotheses

section

variable {S : Type} [Add S] [Sub S] [LT S] [DecidableLT S] [LogScale S]

/-- Several paths merged in their order. -/
def merged (rule : MergeRule) : List (Hypothesis S) → Option (Hypothesis S)
  | [] => none
  | h :: rest => some (rest.foldl (combine rule) h)

/-- A container that groups paths by their tokens, in the order of the first path with them. -/
structure Groups (rule : MergeRule) (new : List (Hypothesis S)) (hs : Hypotheses S) : Prop where
  order : hs.entries.Pairwise fun e f =>
    (new.map (·.tokens)).idxOf e.tokens < (new.map (·.tokens)).idxOf f.tokens
  entry : ∀ e ∈ hs.entries, merged rule (new.filter fun h => h.tokens = e.tokens) = some e
  once : ∀ h ∈ new, ∃! e, e ∈ hs.entries ∧ e.tokens = h.tokens

variable {rule : MergeRule} {new entries : List (Hypothesis S)} {e h : Hypothesis S}

theorem merged_concat (hold : merged rule new = some e) :
    merged rule (new ++ [h]) = some (combine rule e h) := by
  cases new with
  | nil => cases hold
  | cons first rest =>
      rw [merged, Option.some_inj] at hold
      rw [List.cons_append, merged, List.foldl_append, hold]
      rfl

theorem mem_addTo_inv (hnodup : (entries.map (·.tokens)).Nodup) (he : e ∈ addTo rule h entries) :
    e ∈ entries ∧ e.tokens ≠ h.tokens ∨
      (∃ old ∈ entries, old.tokens = h.tokens ∧ e = combine rule old h) ∨
      h.tokens ∉ entries.map (·.tokens) ∧ e = h := by
  induction entries with
  | nil => exact .inr (.inr ⟨List.not_mem_nil, List.mem_singleton.mp he⟩)
  | cons old rest ih =>
      rw [List.map_cons, List.nodup_cons] at hnodup
      rw [addTo] at he
      split at he
      · rename_i hsame
        obtain rfl | he := List.mem_cons.mp he
        · exact .inr (.inl ⟨old, List.mem_cons_self, hsame, rfl⟩)
        · refine .inl ⟨List.mem_cons_of_mem old he, fun heq => hnodup.1 ?_⟩
          exact (hsame.trans heq.symm) ▸ List.mem_map_of_mem he
      · rename_i hother
        obtain rfl | he := List.mem_cons.mp he
        · exact .inl ⟨List.mem_cons_self, hother⟩
        · obtain ⟨hmem, hne⟩ | ⟨old', hmem, hold'⟩ | ⟨hnot, heq⟩ := ih hnodup.2 he
          · exact .inl ⟨List.mem_cons_of_mem old hmem, hne⟩
          · exact .inr (.inl ⟨old', List.mem_cons_of_mem old hmem, hold'⟩)
          · refine .inr (.inr ⟨?_, heq⟩)
            rw [List.map_cons, List.mem_cons, not_or]
            exact ⟨fun htokens => hother htokens.symm, hnot⟩

theorem ofList_concat : (ofList rule (new ++ [h])).entries =
    addTo rule h (ofList rule new).entries := by
  have hrule : (ofList rule new).rule = rule := by
    apply ofList_induction fun hs => hs.rule = rule
    · rfl
    · exact fun _ hsame _ _ => hsame
  rw [ofList, List.foldl_append, List.foldl_cons, List.foldl_nil, ← ofList, add, hrule]

theorem order_ofList (rule : MergeRule) (new : List (Hypothesis S)) :
    ((ofList rule new).entries.map (·.tokens)).Pairwise fun u v =>
    (new.map (·.tokens)).idxOf u < (new.map (·.tokens)).idxOf v := by
  induction new using List.reverseRecOn with
  | nil => exact List.Pairwise.nil
  | append_singleton new h ih =>
      have hold {u : List Int} (hu : u ∈ (ofList rule new).entries.map (·.tokens)) :
          u ∈ new.map (·.tokens) := List.mem_map.mpr ((mem_tokens_ofList u).mp hu)
      have hkept : ((ofList rule new).entries.map (·.tokens)).Pairwise fun u v =>
          ((new ++ [h]).map (·.tokens)).idxOf u < ((new ++ [h]).map (·.tokens)).idxOf v := by
        refine ih.imp_of_mem fun hu hv hlt => ?_
        rwa [List.map_append, List.idxOf_append_of_mem (hold hu),
          List.idxOf_append_of_mem (hold hv)]
      rw [ofList_concat, tokens_addTo]
      split
      · exact hkept
      · rename_i hfresh
        refine List.pairwise_append.mpr ⟨hkept, List.pairwise_singleton _ _, ?_⟩
        intro u hu v hv
        obtain rfl := List.mem_singleton.mp hv
        have hnot : h.tokens ∉ new.map (·.tokens) := fun hmem =>
          hfresh ((mem_tokens_ofList _).mpr (List.mem_map.mp hmem))
        rw [List.map_append, List.idxOf_append_of_mem (hold hu), List.idxOf_append_of_notMem hnot]
        have hlt := List.idxOf_lt_length_iff.mpr (hold hu)
        omega

/-- Adding paths one after the other groups them. -/
theorem groups_ofList : Groups rule new (ofList rule new) where
  order := by
    have horder := order_ofList rule new
    rwa [List.pairwise_map] at horder
  entry := by
    induction new using List.reverseRecOn with
    | nil => simp [ofList]
    | append_singleton new h ih =>
        intro e he
        rw [ofList_concat] at he
        rw [List.filter_append]
        obtain ⟨hmem, hne⟩ | ⟨old, hold, hsame, rfl⟩ | ⟨hnot, rfl⟩ := mem_addTo_inv nodup_ofList he
        · have hlast : [h].filter (fun x => x.tokens = e.tokens) = [] := by simp [hne.symm]
          rw [hlast, List.append_nil]
          exact ih e hmem
        · have hlast : [h].filter (fun x => x.tokens = (combine rule old h).tokens) = [h] := by
            simp [combine, hsame]
          rw [hlast]
          exact merged_concat (ih old hold)
        · have hnone : new.filter (fun x => x.tokens = e.tokens) = [] := by
            rw [List.filter_eq_nil_iff]
            intro x hx heq
            exact hnot ((mem_tokens_ofList _).mpr ⟨x, hx, of_decide_eq_true heq⟩)
          rw [hnone, List.nil_append]
          simp [merged]
  once h hh := by
    obtain ⟨e, he, hsame⟩ := List.mem_map.mp ((mem_tokens_ofList h.tokens).mpr ⟨h, hh, rfl⟩)
    refine ⟨e, ⟨he, hsame⟩, ?_⟩
    intro f hf
    exact List.inj_on_of_nodup_map nodup_ofList hf.1 he (hf.2.trans hsame.symm)

end

end Hypotheses

namespace Search.Beam

variable {S : Type}

/-- Whether an extension stands in front of another one: that of a higher-ranked path does, and of
one path the one by a smaller token. -/
def Candidate.Precedes (c d : Candidate S) : Prop :=
  c.path < d.path ∨ c.path = d.path ∧ c.token < d.token

/-- Whether an extension is better than another one, or no worse and in front of it. -/
def Candidate.Outranks [LT S] (c d : Candidate S) : Prop :=
  d.score < c.score ∨ ¬c.score < d.score ∧ c.Precedes d

/-- The scores of all extensions are totally ordered. -/
structure Comparable [BEq S] [LT S] (rows : List (List S)) : Prop where
  defined : ∀ row ∈ rows, ∀ x ∈ row, isUndefined x = false
  ranked : Ranked {x | ∃ row ∈ rows, x ∈ row}

/-- The extensions chosen from a matrix of scores, in the order of the choice. -/
structure Selection [LT S] (k vocabulary : Nat) (rows : List (List S))
    (chosen : List (Candidate S)) : Prop where
  size : chosen.length = min k (rows.length * vocabulary)
  nodup : (chosen.map fun c => (c.path, c.token)).Nodup
  mem : ∀ c ∈ chosen, c ∈ candidates rows
  best : ∀ c ∈ chosen, ∀ d ∈ candidates rows, d ∉ chosen → c.Outranks d
  sorted : chosen.Pairwise Candidate.Outranks

theorem pairwise_zipIdx {α : Type} (xs : List α) : xs.zipIdx.Pairwise fun a b => a.2 < b.2 := by
  rw [← List.pairwise_map (f := Prod.snd), List.zipIdx_map_snd]
  exact List.pairwise_lt_range' 1

theorem precedes_candidates (rows : List (List S)) :
    (candidates rows).Pairwise Candidate.Precedes := by
  rw [candidates, List.pairwise_flatMap]
  constructor
  · intro row _
    rw [List.pairwise_map]
    exact (pairwise_zipIdx row.1).imp fun hlt => .inr ⟨rfl, hlt⟩
  · refine (pairwise_zipIdx rows).imp fun hlt c hc d hd => .inl ?_
    obtain ⟨-, -, rfl⟩ := List.mem_map.mp hc
    obtain ⟨-, -, rfl⟩ := List.mem_map.mp hd
    exact hlt

theorem nodup_candidates (rows : List (List S)) :
    ((candidates rows).map fun c => (c.path, c.token)).Nodup := by
  rw [List.Nodup, List.pairwise_map]
  refine (precedes_candidates rows).imp fun hfront heq => ?_
  obtain ⟨hpath, htoken⟩ := Prod.mk.inj heq
  obtain hlt | ⟨-, hlt⟩ := hfront
  · exact hlt.ne hpath
  · exact hlt.ne htoken

theorem score_mem {rows : List (List S)} {c : Candidate S} (hc : c ∈ candidates rows) :
    ∃ row ∈ rows, c.score ∈ row := by
  obtain ⟨row, hrow, hscore⟩ := mem_candidates.mp hc
  exact ⟨row, List.mem_of_getElem? hrow, List.mem_of_getElem? hscore⟩

section

variable [BEq S] [LT S] [DecidableLT S] {rows : List (List S)}

/-- Sorting by falling scores puts every extension behind those that outrank it. -/
theorem outranks_mergeSort (h : Comparable rows) :
    ((candidates rows).mergeSort fun a b => !comesBefore b.score a.score).Pairwise
      Candidate.Outranks := by
  have hbefore {a b : Candidate S} (ha : a ∈ candidates rows) (hb : b ∈ candidates rows) :
      (!comesBefore b.score a.score) = true ↔ ¬a.score < b.score := by
    obtain ⟨row, hrow, hscore⟩ := score_mem ha
    simp [comesBefore, h.defined row hrow _ hscore]
  have htrans : ∀ a ∈ candidates rows, ∀ b ∈ candidates rows, ∀ c ∈ candidates rows,
      (!comesBefore b.score a.score) = true → (!comesBefore c.score b.score) = true →
        (!comesBefore c.score a.score) = true := by
    intro a ha b hb c hc hab hbc
    rw [hbefore ha hb] at hab
    rw [hbefore hb hc] at hbc
    rw [hbefore ha hc]
    exact h.ranked.not_lt_trans (score_mem ha) (score_mem hb) (score_mem hc) hab hbc
  have htotal : ∀ a ∈ candidates rows, ∀ b ∈ candidates rows,
      (!comesBefore b.score a.score || !comesBefore a.score b.score) = true := by
    intro a ha b hb
    rw [Bool.or_eq_true, hbefore ha hb, hbefore hb ha]
    exact h.ranked.not_lt_total (score_mem ha) (score_mem hb)
  refine (pairwise_mergeSort_on htrans htotal (precedes_candidates rows)).imp_of_mem ?_
  intro a b ha hb hab
  rw [List.mem_mergeSort] at ha hb
  by_cases hlt : b.score < a.score
  · exact .inl hlt
  · exact .inr ⟨(hbefore ha hb).mp hab.1, hab.2 ((hbefore hb ha).mpr hlt)⟩

theorem selection_best {vocabulary : Nat} (hrows : ∀ row ∈ rows, row.length = vocabulary)
    (h : Comparable rows) (k : Nat) :
    Selection k vocabulary rows (best k (candidates rows)) := by
  have hsorted := outranks_mergeSort h
  have hperm := List.mergeSort_perm (candidates rows) fun a b => !comesBefore b.score a.score
  rw [← List.take_append_drop k (List.mergeSort _ _), List.pairwise_append] at hsorted
  constructor
  case size => rw [best, List.length_take, List.length_mergeSort, length_candidates hrows]
  case nodup =>
    have hnodup := (hperm.map fun c => (c.path, c.token)).nodup_iff.mpr (nodup_candidates rows)
    exact hnodup.sublist ((List.take_sublist k _).map _)
  case mem => exact fun c hc => mem_of_mem_best hc
  case best =>
    intro c hc d hd hnot
    have hmem := hperm.mem_iff.mpr hd
    rw [← List.take_append_drop k (List.mergeSort _ _), List.mem_append] at hmem
    exact hsorted.2.2 c hc d (hmem.resolve_left hnot)
  case sorted => exact hsorted.1

end

section

variable [Zero S] [Add S] [Sub S] [BEq S]
variable {b : Settings} {graph : Option (Hotword.Graph S)} {t : Int}
variable {paths : List (Hypothesis S)} {chosen : List (Candidate S)}

/-- The path that a chosen extension leads to. -/
def LeadsTo (graph : Option (Hotword.Graph S)) (t : Int) (paths : List (Hypothesis S))
    (c : Candidate S) (h : Hypothesis S) : Prop :=
  ∃ path, paths[c.path]? = some path ∧ extend graph t path c.token c.score = .ok h

/-- The node of a path is one of the graph. -/
def AtNode (graph : Option (Hotword.Graph S)) (path : Hypothesis S) : Prop :=
  ∀ g ∈ graph, ∀ state ∈ path.contextState, ∃ i, g.index state = .ok i

theorem leadsTo_of_extensions {new : List (Hypothesis S)}
    (hpaths : ∀ c ∈ chosen, c.path < paths.length)
    (h : extensions graph t paths chosen = new.map .ok) :
    List.Forall₂ (LeadsTo graph t paths) chosen new := by
  induction chosen generalizing new with
  | nil =>
      obtain rfl := List.map_eq_nil_iff.mp h.symm
      exact .nil
  | cons c chosen ih =>
      have hpath := List.getElem?_eq_getElem (hpaths c List.mem_cons_self)
      rw [extensions_cons, hpath] at h
      obtain ⟨first, rest, rfl, hfirst, hrest⟩ := List.map_eq_cons_iff.mp h.symm
      exact .cons ⟨_, hpath, hfirst.symm⟩
        (ih (fun d hd => hpaths d (List.mem_cons_of_mem c hd)) hrest.symm)

theorem extend_of_atNode {path : Hypothesis S} (hpath : AtNode graph path) (t token : Int)
    (score : S) : ∃ h, extend graph t path token score = .ok h := by
  rw [extend]
  split
  · dsimp only
    split
    · rename_i g state hstate
      obtain ⟨i, hi⟩ := hpath g rfl state hstate
      rw [hi]
      exact ⟨_, rfl⟩
    · exact ⟨_, rfl⟩
  · exact ⟨_, rfl⟩

theorem successors_of_atNode [LT S] [DecidableLT S] [LogScale S]
    (hpaths : ∀ path ∈ paths, AtNode graph path) (b : Settings) (t : Int)
    {chosen : List (Candidate S)} (hchosen : ∀ c ∈ chosen, c.path < paths.length) :
    ∃ hs, successors b graph t paths chosen = .ok hs := by
  have hstep (hs : Hypotheses S) (c : Candidate S) (hc : c ∈ chosen) (_ : True) :
      ∃ hs', successors.addSuccessor graph t paths hs c = .ok hs' ∧ True := by
    have hlt := hchosen c hc
    obtain ⟨h, hextend⟩ :=
      extend_of_atNode (hpaths _ (List.getElem_mem hlt)) t c.token c.score
    rw [successors.addSuccessor, List.getElem?_eq_getElem hlt]
    dsimp only
    rw [hextend]
    exact ⟨_, rfl, trivial⟩
  obtain ⟨hs, hhs, -⟩ := foldlM_eq_ok (b := { rule := b.rule }) trivial hstep
  exact ⟨hs, hhs⟩

end

section

variable {σ : Type} [Zero S] [Add S] [Sub S] [BEq S] [LT S] [DecidableLT S] [LogScale S]

/-- A frame whose networks answer chooses the best extensions of the ranked paths, and merges the
paths that they lead to in the order of the choice. -/
theorem decodeFrame_selects (net : Network σ S) (b : Settings) (graph : Option (Hotword.Graph S))
    (isFirst : Bool) (t : Int) (frame : List S) (hs : Hypotheses S) (vocabulary : Nat)
    {s s₁ : Session σ S} {prediction logits : List (List S)} {network : σ}
    (hpredict : predict net isFirst (hs.top b.width) s = .ok prediction s₁)
    (hjoin : net.join frame prediction s₁.network = .ok logits network)
    (hlength : logits.length = (hs.top b.width).length)
    (hrows : ∀ row ∈ logits, row.length = vocabulary) (hpos : 0 < vocabulary)
    (hnodes : ∀ path ∈ hs.top b.width, AtNode graph path) :
    ∃ rows hs' new,
      scoreRows (hs.top b.width) logits = .ok rows ∧
      rows.length = (hs.top b.width).length ∧ (∀ row ∈ rows, row.length = vocabulary) ∧
      decodeFrame net b graph isFirst t frame (hs.top b.width) s = .ok hs' { s₁ with network } ∧
      (Comparable rows →
        Selection b.width vocabulary rows (best b.width (candidates rows))) ∧
      List.Forall₂ (LeadsTo graph t (hs.top b.width)) (best b.width (candidates rows)) new ∧
      Hypotheses.Groups b.rule new hs' := by
  obtain ⟨rows, hscores, hcount, hlen⟩ := scoreRows_eq_ok hpos hlength hrows
  have hchosen (c : Candidate S) (hc : c ∈ best b.width (candidates rows)) :
      c.path < (hs.top b.width).length :=
    hcount ▸ path_lt_of_mem_candidates (mem_of_mem_best hc)
  obtain ⟨hs', hsuccessors⟩ := successors_of_atNode hnodes b t hchosen
  obtain ⟨new, rfl, hnew⟩ := successors_inv hsuccessors
  refine ⟨rows, _, new, hscores, hcount, hlen, ?_, fun h => selection_best hlen h b.width, ?_,
    Hypotheses.groups_ofList⟩
  · simp [decodeFrame, bind, EStateM.bind, hpredict, ask, hjoin, answered, hscores, hsuccessors,
      pure, EStateM.pure]
  · exact leadsTo_of_extensions hchosen hnew

end

/-- Two paths with the same score, and a frame on which all tokens tie. -/
theorem decodeFrame_selects_ties :
    let net := (addingNetwork (fun _ => (0 : ℝ)) 4).inOneCall
    let hs : Hypotheses ℝ := ⟨.logSumExp, [{ tokens := [0, 0, 1], score := 0 },
      { tokens := [0, 0, 3], score := 0 }]⟩
    ∃ rows hs' new s',
      decodeFrame net ⟨3, .logSumExp⟩ none false 0 [1, 1, 1, 1] (hs.top 3) ⟨(), {}⟩ =
        .ok hs' s' ∧
      rows.length = 2 ∧ Selection 3 4 rows (best 3 (candidates rows)) ∧
      List.Forall₂ (LeadsTo none 0 (hs.top 3)) (best 3 (candidates rows)) new ∧
      Hypotheses.Groups .logSumExp new hs' := by
  intro net hs
  have hnet : net.Answering 4 :=
    (addingNetwork_responding (fun _ => (0 : ℝ)) (by decide) (by decide)).answering
  have hpaths : ∀ h ∈ hs.top 3, SoundPath net 4 none h := by
    intro h hh
    have hmem : h ∈ hs.entries := mem_of_mem_top hh
    have hpadded (t : Int) (ht : Emitted 4 t) : Padded net 4 [0, 0, t] :=
      ⟨[t], rfl, by simpa using ht⟩
    obtain rfl | rfl : h = _ ∨ h = _ := by simpa [hs] using hmem
    · exact ⟨hpadded 1 ⟨by decide, by decide, by decide⟩, by simp⟩
    · exact ⟨hpadded 3 ⟨by decide, by decide, by decide⟩, by simp⟩
  obtain ⟨prediction, network, hprediction, hcount⟩ := predictAll_yields hnet hpaths ()
  obtain ⟨logits, network', hjoin, hlogits, hrows⟩ :=
    hnet.join [1, 1, 1, 1] prediction network
  have hpredict : predict net false (hs.top 3) ⟨(), {}⟩ = .ok prediction ⟨network, {}⟩ := by
    simp [predict, look, ask, hprediction, bind, EStateM.bind]
  have hsize : (hs.top 3).length = 2 := (top_perm (k := 3) (by decide)).length_eq
  obtain ⟨rows, hs', new, -, hlength, hwidths, hrun, hselection, hnew, hgroups⟩ :=
    decodeFrame_selects net ⟨3, .logSumExp⟩ none false 0 [1, 1, 1, 1] hs 4 hpredict hjoin
      (hlogits.trans hcount) hrows (by decide) (by simp [AtNode])
  have hcomparable : Comparable rows :=
    ⟨fun _ _ x _ => isUndefined_eq_false x, ranked_of_linearOrder _⟩
  exact ⟨rows, hs', new, _, hrun, hlength.trans hsize, hselection hcomparable, hnew, hgroups⟩

end Search.Beam

end SpeechTransducer
