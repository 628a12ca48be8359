import SpeechTransducer.Proofs.Fallible
import SpeechTransducer.Proofs.Hotword.Walk
import SpeechTransducer.Proofs.Ranking.Permutation
import SpeechTransducer.Proofs.Search.Exits
import SpeechTransducer.Search.Beam

/-!
Beam search on networks that always answer. It goes through on every chunk: all paths are made of
tokens of the vocabulary, and stand at nodes of the hotword graph.
-/

namespace SpeechTransducer.Search.Beam

section

variable {S : Type} {P : Hypothesis S → Prop}

theorem mem_addTo [Add S] [Sub S] [LT S] [DecidableLT S] [LogScale S] {rule : MergeRule}
    {new : Hypothesis S} {entries : List (Hypothesis S)} (hnew : P new)
    (hcombine : ∀ old ∈ entries, old.tokens = new.tokens → P old →
      P (Hypotheses.combine rule old new))
    (h : ∀ old ∈ entries, P old) : ∀ h ∈ Hypotheses.addTo rule new entries, P h := by
  induction entries with
  | nil =>
      intro h hh
      exact List.mem_singleton.mp hh ▸ hnew
  | cons old rest ih =>
      rw [Hypotheses.addTo]
      have hold := h old List.mem_cons_self
      have hrest := fun x hx => h x (List.mem_cons_of_mem old hx)
      split
      · rename_i hsame
        intro x hx
        obtain rfl | hx := List.mem_cons.mp hx
        · exact hcombine old List.mem_cons_self hsame hold
        · exact hrest x hx
      · intro x hx
        obtain rfl | hx := List.mem_cons.mp hx
        · exact hold
        · exact ih (fun y hy => hcombine y (List.mem_cons_of_mem old hy)) hrest x hx

theorem mem_of_mem_top [BEq S] [LT S] [DecidableLT S] {hs : Hypotheses S} {k : Int}
    {h : Hypothesis S} (hh : h ∈ hs.top k) : h ∈ hs.entries :=
  (Ranking.rank_perm _ _).mem_iff.mp (List.mem_of_mem_take hh)

theorem mem_of_best? [BEq S] [LT S] [DecidableLT S] {hs : Hypotheses S} {h : Hypothesis S}
    (hh : hs.best? = some h) : h ∈ hs.entries :=
  mem_of_mem_top (List.mem_of_mem_head? hh)

theorem mem_of_mem_best [BEq S] [LT S] [DecidableLT S] {k : Nat} {cs : List (Candidate S)}
    {c : Candidate S} (hc : c ∈ best k cs) : c ∈ cs :=
  List.mem_mergeSort.mp (List.mem_of_mem_take hc)

theorem mem_candidates {rows : List (List S)} {c : Candidate S} :
    c ∈ candidates rows ↔ ∃ row, rows[c.path]? = some row ∧ row[c.token]? = some c.score := by
  rw [candidates, List.mem_flatMap]
  constructor
  · rintro ⟨⟨row, path⟩, hrow, hc⟩
    obtain ⟨⟨score, token⟩, hscore, rfl⟩ := List.mem_map.mp hc
    exact ⟨row, List.mem_zipIdx_iff_getElem?.mp hrow, List.mem_zipIdx_iff_getElem?.mp hscore⟩
  · rintro ⟨row, hrow, hscore⟩
    refine ⟨(row, c.path), List.mem_zipIdx_iff_getElem?.mpr hrow, ?_⟩
    exact List.mem_map.mpr ⟨(c.score, c.token), List.mem_zipIdx_iff_getElem?.mpr hscore, rfl⟩

theorem path_lt_of_mem_candidates {rows : List (List S)} {c : Candidate S}
    (hc : c ∈ candidates rows) : c.path < rows.length := by
  obtain ⟨row, hrow, -⟩ := mem_candidates.mp hc
  exact (List.getElem?_eq_some_iff.mp hrow).1

theorem token_lt_of_mem_candidates {rows : List (List S)} {vocabulary : Nat}
    (hrows : ∀ row ∈ rows, row.length = vocabulary) {c : Candidate S} (hc : c ∈ candidates rows) :
    c.token < vocabulary := by
  obtain ⟨row, hrow, hscore⟩ := mem_candidates.mp hc
  rw [← hrows row (List.mem_of_getElem? hrow)]
  exact (List.getElem?_eq_some_iff.mp hscore).1

theorem owners_inv {paths ranked : List (Hypothesis S)} {logits : List (List S)}
    (h : owners paths logits = .ok ranked) :
    logits.length = paths.length ∧ ranked = paths ∨
      ∃ path, paths = [path] ∧ ranked = List.replicate logits.length path := by
  rw [owners.eq_def] at h
  split at h
  · exact .inr ⟨_, rfl, (Except.ok.inj h).symm⟩
  · split at h
    · exact .inl ⟨‹_›, (Except.ok.inj h).symm⟩
    · split at h <;> cases h

theorem length_owners {paths ranked : List (Hypothesis S)} {logits : List (List S)}
    (h : owners paths logits = .ok ranked) : ranked.length = logits.length := by
  obtain ⟨hlen, rfl⟩ | ⟨path, -, rfl⟩ := owners_inv h
  · exact hlen.symm
  · exact List.length_replicate

theorem owners_of_length {paths : List (Hypothesis S)} {logits : List (List S)}
    (h : logits.length = paths.length) : owners paths logits = .ok paths := by
  rw [owners.eq_def]
  split
  · rw [h]
    rfl
  · exact if_pos h

end

variable {σ S : Type}

/-- A path of the search: its tokens, and its node in the hotword graph if there is one. -/
structure SoundPath (net : Network σ S) (vocabulary : Nat) (graph : Option (Hotword.Graph S))
    (h : Hypothesis S) : Prop where
  tokens : Padded net vocabulary h.tokens
  context : ∀ g ∈ graph, ∀ state ∈ h.contextState, ∃ i : Nat, i < g.size ∧ state = i

/-- What holds of a stream's search between two chunks. -/
structure Sound (net : Network σ S) (vocabulary : Nat) (graph : Option (Hotword.Graph S))
    (st : State S) : Prop where
  tokens : Padded net vocabulary st.tokens
  paths : ∃ hs, st.hyps = some hs ∧ ∀ h ∈ hs.entries, SoundPath net vocabulary graph h
  prediction : ∀ rows ∈ st.prediction, rows.length = 1

variable {net : Network σ S} {vocabulary : Nat} {graph : Option (Hotword.Graph S)}

section

variable [Add S] [Sub S] [LT S] [DecidableLT S] [LogScale S]

theorem SoundPath.combine {rule : MergeRule} {old new : Hypothesis S}
    (hold : SoundPath net vocabulary graph old) (hnew : SoundPath net vocabulary graph new) :
    SoundPath net vocabulary graph (Hypotheses.combine rule old new) := by
  refine ⟨hold.tokens, ?_⟩
  simp only [Hypotheses.combine, Hypotheses.stronger]
  split
  · exact hnew.context
  · exact hold.context

end

section

variable {q : Fault → Prop}

/-- What holds of every call of the prediction network, and is kept when answers are put together,
holds whether it takes all rows in one call or one after the other. -/
theorem predictRows_leaves {p : List (List Int) → List (List S) → Prop} (hnil : p [] [])
    (hcons : ∀ row rows out more, p [row] out → p rows more → p (row :: rows) (out ++ more))
    (hall : ∀ rows network, net.batched = true →
      Leaves (net.predict rows) network (fun out _ => p rows out) fun e _ => q e)
    (hrow : ∀ row network,
      Leaves (net.predict [row]) network (fun out _ => p [row] out) fun e _ => q e)
    (rows : List (List Int)) (network : σ) :
    Leaves (net.predictRows rows) network (fun out _ => p rows out) fun e _ => q e := by
  rw [Network.predictRows]
  split
  · exact hall rows network ‹_›
  · induction rows generalizing network with
    | nil => exact .pure hnil
    | cons row rest ih =>
        rw [Network.predictRows.oneByOne]
        refine .bind (hrow row network) fun out network hout => ?_
        refine .bind (ih network) fun more network hmore => ?_
        exact .pure (hcons row rest out more hout hmore)

theorem length_predictRows
    (hall : ∀ rows network, net.batched = true →
      Leaves (net.predict rows) network (fun out _ => out.length = rows.length) fun e _ => q e)
    (hrow : ∀ row network,
      Leaves (net.predict [row]) network (fun out _ => out.length = 1) fun e _ => q e)
    (rows : List (List Int)) (network : σ) :
    Leaves (net.predictRows rows) network (fun out _ => out.length = rows.length)
      fun e _ => q e := by
  apply predictRows_leaves (p := fun rows out => out.length = rows.length)
  · rfl
  · intro row rows out more hout hmore
    rw [List.length_append, hout, hmore, List.length_singleton, List.length_cons, Nat.add_comm]
  · exact hall
  · exact hrow

end

theorem predictAll_yields (hnet : net.Answering vocabulary) {paths : List (Hypothesis S)}
    (hpaths : ∀ h ∈ paths, SoundPath net vocabulary graph h) (network : σ) :
    Yields (predict.predictAll net paths) network fun out _ => out.length = paths.length := by
  have htokens : ∀ tokens ∈ paths.map (·.tokens), Padded net vocabulary tokens := by
    intro tokens htokens
    obtain ⟨h, hh, rfl⟩ := List.mem_map.mp htokens
    exact (hpaths h hh).tokens
  refine .bind_answered (contexts_eq_ok hnet htokens) ?_
  have hrows (rows : List (List Int)) : Yields (net.predictRows rows) network fun out _ =>
      out.length = rows.length :=
    yields_iff_leaves.mpr (length_predictRows
      (fun rows network _ => (hnet.predict rows network).leaves)
      (fun row network => (hnet.predict [row] network).leaves) rows network)
  refine (hrows _).mono fun out _ hout => ?_
  rw [hout, List.length_map, List.length_map]

theorem predict_yields {s : Session σ S} (hnet : net.Answering vocabulary) (isFirst : Bool)
    {paths : List (Hypothesis S)} (hpaths : ∀ h ∈ paths, SoundPath net vocabulary graph h)
    (h : Sound net vocabulary graph s.state) :
    Yields (predict net isFirst paths) s fun rows s' =>
      rows.length = paths.length ∧ Sound net vocabulary graph s'.state := by
  have hall : Yields (ask (predict.predictAll net paths)) s fun rows s' =>
      rows.length = paths.length ∧ Sound net vocabulary graph s'.state :=
    .ask (predictAll_yields hnet hpaths _) fun _ _ hrows => ⟨hrows, h⟩
  refine .bind_look ?_
  split
  · rename_i rows path hrows
    split
    · refine .bind_change (.pure ⟨h.prediction rows hrows, h.tokens, h.paths, by simp⟩)
    · exact hall
  · exact hall

/-- The tokens of a result are tokens of the vocabulary. -/
theorem emitted_strip [BEq S] [LT S] [DecidableLT S] (hsize : 0 ≤ net.contextSize) {st : State S}
    (h : Sound net vocabulary graph st) :
    ∀ t ∈ (strip net st).tokens, Emitted vocabulary t := by
  obtain ⟨hs, hstate, hhs⟩ := h.paths
  rw [strip, hstate]
  cases hbest : hs.best? with
  | none =>
      simp only [Option.bind_some, hbest]
      exact h.tokens.sliceFrom hsize
  | some best =>
      simp only [Option.bind_some, hbest]
      exact (hhs best (mem_of_best? hbest)).tokens.sliceFrom hsize

theorem index_eq_ok {g : Hotword.Graph S} {i : Nat} (hi : i < g.size) (hsize : g.size ≤ 2 ^ 63) :
    g.index i = .ok i := by
  have hfits : Number.fitsWord i = true := by
    rw [Number.fitsWord, Bool.and_eq_true, decide_eq_true_iff, decide_eq_true_iff]
    omega
  rw [Hotword.Graph.index, resolveEntry, hfits]
  have hnonneg : ¬(i : Int) < 0 := by omega
  simp only [Bool.not_true, Bool.false_eq_true, if_false, hnonneg]
  rw [if_pos (by omega), Int.toNat_natCast]

section

variable [Zero S] [Add S] [Sub S] [BEq S] [LT S] [DecidableLT S]

/-- A hotword graph, if there is one, was made of phrases, and its nodes can be numbered. -/
def Anchored (graph : Option (Hotword.Graph S)) : Prop :=
  ∀ g ∈ graph, ∃ phrases, g = Hotword.Graph.ofWeighted phrases ∧ g.size ≤ 2 ^ 63

theorem extend_eq_ok (hgraph : Anchored graph) {path : Hypothesis S}
    (hpath : SoundPath net vocabulary graph path) (t : Int) {token : Nat}
    (htoken : token < vocabulary) (score : S) :
    ∃ h, extend graph t path token score = .ok h ∧ SoundPath net vocabulary graph h := by
  rw [extend]
  split
  · rename_i hemission
    have hgrown := hpath.tokens.concat (t := token) ⟨hemission, by omega, by omega⟩
    dsimp only
    split
    · rename_i g state hstate
      obtain ⟨phrases, rfl, hsize⟩ := hgraph g rfl
      obtain ⟨i, hi, rfl⟩ := hpath.context _ rfl state hstate
      obtain ⟨paths, hcomplete⟩ := Hotword.Arena.complete_ofWeighted phrases
      have hnext := hcomplete.step_lt_size false hi token
      rw [index_eq_ok hi hsize]
      refine ⟨_, rfl, hgrown, ?_⟩
      intro g hg state hstate
      obtain rfl := Option.some.inj hg
      obtain rfl := Option.some.inj hstate
      exact ⟨_, hnext, rfl⟩
    · exact ⟨_, rfl, hgrown, hpath.context⟩
  · exact ⟨_, rfl, hpath.tokens, hpath.context⟩

variable [LogScale S]

theorem successors_eq_ok (hgraph : Anchored graph) (b : Settings) (t : Int)
    {paths : List (Hypothesis S)} (hpaths : ∀ h ∈ paths, SoundPath net vocabulary graph h)
    {chosen : List (Candidate S)}
    (hchosen : ∀ c ∈ chosen, c.path < paths.length ∧ c.token < vocabulary) :
    ∃ hs, successors b graph t paths chosen = .ok hs ∧
      ∀ h ∈ hs.entries, SoundPath net vocabulary graph h := by
  refine foldlM_eq_ok (by simp) ?_
  intro hs c hc hsound
  obtain ⟨hlt, htoken⟩ := hchosen c hc
  obtain ⟨h, hextend, hh⟩ :=
    extend_eq_ok hgraph (hpaths _ (List.getElem_mem hlt)) t htoken c.score
  rw [successors.addSuccessor, List.getElem?_eq_getElem hlt]
  dsimp only
  rw [hextend]
  exact ⟨hs.add h, rfl, mem_addTo hh (fun _ _ _ hold => hold.combine hh) hsound⟩

theorem extensionScores_eq_ok (path : Hypothesis S) {logits : List S} (hne : logits ≠ []) :
    ∃ row, extensionScores path logits = .ok row ∧ row.length = logits.length := by
  cases logits with
  | nil => exact absurd rfl hne
  | cons x xs => exact ⟨_, rfl, by simp⟩

theorem scoreRows_of_length {paths : List (Hypothesis S)} {logits : List (List S)}
    (h : logits.length = paths.length) :
    scoreRows paths logits = (paths.zip logits).mapM fun p => extensionScores p.1 p.2 := by
  rw [scoreRows, owners_of_length h]
  rfl

theorem scoreRows_eq_ok (hpos : 0 < vocabulary) {paths : List (Hypothesis S)}
    {logits : List (List S)} (hcount : logits.length = paths.length)
    (hlogits : ∀ row ∈ logits, row.length = vocabulary) :
    ∃ rows, scoreRows paths logits = .ok rows ∧ rows.length = paths.length ∧
      ∀ row ∈ rows, row.length = vocabulary := by
  have hscores (p : Hypothesis S × List S) (hp : p ∈ paths.zip logits) :
      ∃ row, extensionScores p.1 p.2 = .ok row ∧ row.length = vocabulary := by
    have hlen := hlogits p.2 (List.of_mem_zip hp).2
    obtain ⟨row, hrow, hsame⟩ :=
      extensionScores_eq_ok p.1 (List.ne_nil_of_length_pos (hlen ▸ hpos))
    exact ⟨row, hrow, hsame.trans hlen⟩
  obtain ⟨rows, hrows, hall⟩ := mapM_eq_ok hscores
  have hlength := congrArg List.length (mapM_inv hrows)
  rw [List.length_map, List.length_map, List.length_zip, hcount, Nat.min_self] at hlength
  exact ⟨rows, (scoreRows_of_length hcount).trans hrows, hlength.symm, hall⟩

variable {s : Session σ S}

theorem decodeFrame_yields (hnet : net.Answering vocabulary) (hgraph : Anchored graph)
    (b : Settings) (isFirst : Bool) (t : Int) (frame : List S) {paths : List (Hypothesis S)}
    (hpaths : ∀ h ∈ paths, SoundPath net vocabulary graph h)
    (h : Sound net vocabulary graph s.state) :
    Yields (decodeFrame net b graph isFirst t frame paths) s fun hs s' =>
      (∀ h ∈ hs.entries, SoundPath net vocabulary graph h) ∧
        Sound net vocabulary graph s'.state := by
  refine .bind (predict_yields hnet isFirst hpaths h) fun prediction s₁ hprediction => ?_
  refine .bind_ask (hnet.join frame prediction s₁.network) fun logits network hlogits => ?_
  obtain ⟨rows, hrows, hcount, hlen⟩ :=
    scoreRows_eq_ok hnet.vocabulary_pos (hlogits.1.trans hprediction.1) hlogits.2
  have hchosen (c : Candidate S) (hc : c ∈ best b.width (candidates rows)) :
      c.path < paths.length ∧ c.token < vocabulary :=
    ⟨hcount ▸ path_lt_of_mem_candidates (mem_of_mem_best hc),
      token_lt_of_mem_candidates hlen (mem_of_mem_best hc)⟩
  obtain ⟨hs, hhs, hsound⟩ := successors_eq_ok hgraph b t hpaths hchosen
  exact .bind_answered hrows (.answered hhs ⟨hsound, hprediction.2⟩)

theorem decodeFrames_yields (hnet : net.Answering vocabulary) (hgraph : Anchored graph)
    (b : Settings) (isFirst : Bool) (t : Int) (frames : List (List S)) {hs : Hypotheses S}
    (hhs : ∀ h ∈ hs.entries, SoundPath net vocabulary graph h)
    (h : Sound net vocabulary graph s.state) :
    Yields (decodeFrames net b graph isFirst t frames hs) s fun hs s' =>
      (∀ h ∈ hs.entries, SoundPath net vocabulary graph h) ∧
        Sound net vocabulary graph s'.state := by
  induction frames generalizing isFirst t hs s with
  | nil => exact .pure ⟨hhs, h⟩
  | cons frame frames ih =>
      rw [decodeFrames]
      split
      · exact .pure ⟨hhs, h⟩
      · have hpaths : ∀ h ∈ hs.top b.width, SoundPath net vocabulary graph h :=
          fun h hh => hhs h (mem_of_mem_top hh)
        refine .bind (decodeFrame_yields hnet hgraph b isFirst t frame hpaths h) ?_
        intro hs' s' hnext
        exact ih _ _ hnext.1 hnext.2

/-- A chunk goes through. -/
theorem decode_yields (hnet : net.Answering vocabulary) (hgraph : Anchored graph) (b : Settings)
    {out : Argument S} {frames : List (List S)} (hframes : encoderFrames out = .ok frames)
    (h : Sound net vocabulary graph s.state) :
    Yields (decode net b graph out) s fun _ s' => Sound net vocabulary graph s'.state := by
  refine .bind_answered hframes (.bind_look ?_)
  obtain ⟨hs, hstate, hhs⟩ := h.paths
  dsimp only [id]
  rw [hstate]
  dsimp only
  split
  · exact .pure h
  · refine .bind (decodeFrames_yields hnet hgraph b true _ frames hhs h) ?_
    intro hs' s' hnext
    refine .bind_change ?_
    have hmoved : Sound net vocabulary graph
        { s'.state with frameOffset := s'.state.frameOffset + frames.length } :=
      ⟨hnext.2.tokens, hnext.2.paths, hnext.2.prediction⟩
    split
    · exact .pure hmoved
    · rename_i best hbest
      have hpath := hnext.1 best (mem_of_best? hbest)
      have hpaths : ∀ h ∈ [best], SoundPath net vocabulary graph h := by simpa using hpath
      refine .bind_change (.bind_ask (predictAll_yields hnet hpaths _) fun rows network hrows => ?_)
      refine .change ⟨hpath.tokens, ⟨hs', rfl, hnext.1⟩, fun kept hkept => ?_⟩
      exact Option.some.inj hkept ▸ hrows

end

end SpeechTransducer.Search.Beam
