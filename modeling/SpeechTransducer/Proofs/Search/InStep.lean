import SpeechTransducer.Proofs.Search.Chunks

/-!
The paths of a beam search keep in step with the frames. However the scores compare, and whichever
of two paths to the same tokens gives its times to the merged one, each path has a time for every
emitted token and counts the frames since the last of them.
-/

namespace SpeechTransducer.Search

variable {σ S : Type}

/-- Networks that give, where they answer, one row for each row that they are given. -/
structure Network.Shaped (net : Network σ S) : Prop where
  predict : ∀ rows network out network', net.batched = true ∨ rows.length = 1 →
    net.predict rows network = .ok out network' → out.length = rows.length
  join : ∀ frame rows network out network',
    net.join frame rows network = .ok out network' → out.length = rows.length

theorem addingNetwork_shaped [Zero S] [Add S] (own : Int → S) (vocabulary : Nat) :
    (addingNetwork own vocabulary).Shaped where
  predict rows network out network' _ hout := by
    cases hout
    exact List.length_map _
  join frame rows network out network' hout := by
    cases hout
    exact List.length_map _

namespace Beam

/-- A path after so many frames: the blanks of the initial context and tokens that are neither the
blank nor the unknown one, a time for each of those, and the number of frames since the last. -/
structure InStep (net : Network σ S) (frames : Int) (h : Hypothesis S) : Prop where
  tokens : ∃ emitted, h.tokens = List.replicate net.contextSize.toNat blankToken ++ emitted ∧
    ∀ token ∈ emitted, token ≠ blankToken ∧ token ≠ unknownToken
  length : h.tokens.length = net.contextSize.toNat + h.timestamps.length
  increasing : h.timestamps.Pairwise (· < ·)
  bounds : ∀ time ∈ h.timestamps, 0 ≤ time ∧ time < frames
  trailingBlanks : h.trailingBlanks =
    match h.timestamps.getLast? with
    | some last => frames - 1 - last
    | none => frames

/-- The paths that are followed after so many frames. -/
structure Surviving (net : Network σ S) (b : Settings) (frames : Int) (hs : Hypotheses S) :
    Prop where
  pos : 1 ≤ hs.size
  le : hs.size ≤ b.width
  nodup : (hs.entries.map (·.tokens)).Nodup
  inStep : ∀ h ∈ hs.entries, InStep net frames h

/-- A stream's search after so many frames: its paths, and the best of them as its result. -/
structure Abreast [BEq S] [LT S] [DecidableLT S] (net : Network σ S) (b : Settings) (frames : Nat)
    (st : State S) : Prop where
  frameOffset : st.frameOffset = frames
  paths : ∃ hs, st.hyps = some hs ∧ Surviving net b frames hs ∧
    ∃ h, hs.best = .ok h ∧ st.tokens = h.tokens ∧ st.timestamps = h.timestamps ∧
      st.trailingBlanks = h.trailingBlanks

variable {net : Network σ S} {b : Settings} {graph : Option (Hotword.Graph S)} {t : Int}

theorem InStep.blanks (score : S) (state : Option Int) :
    InStep net 0
      { tokens := List.replicate net.contextSize.toNat blankToken
        score
        contextState := state } where
  tokens := ⟨[], (List.append_nil _).symm, by simp⟩
  length := by simp
  increasing := .nil
  bounds := by simp
  trailingBlanks := rfl

/-- A frame later, the last time is as far back as there were frames without emission. -/
theorem InStep.extend [Zero S] [Add S] [Sub S] [BEq S] {path h : Hypothesis S} {token : Int}
    {score : S} (hpath : InStep net t path) (ht : 0 ≤ t)
    (hextend : extend graph t path token score = .ok h) : InStep net (t + 1) h := by
  obtain ⟨emitted, htokens, hemitted⟩ := hpath.tokens
  obtain ⟨hemission, score', state, rfl, -⟩ | ⟨hrest, rfl⟩ := extend_inv hextend
  · rw [isEmission, Bool.and_eq_true, bne_iff_ne, bne_iff_ne] at hemission
    refine ⟨⟨emitted ++ [token], ?_, ?_⟩, ?_, ?_, ?_, ?_⟩
    · rw [htokens, List.append_assoc]
    · intro token' htoken'
      obtain hold | hnew := List.mem_append.mp htoken'
      · exact hemitted token' hold
      · exact List.mem_singleton.mp hnew ▸ hemission
    · simp only [List.length_append, hpath.length, Nat.add_assoc]
      rfl
    · refine List.pairwise_append.mpr ⟨hpath.increasing, List.pairwise_singleton _ _, ?_⟩
      intro time htime now hnow
      exact List.mem_singleton.mp hnow ▸ (hpath.bounds time htime).2
    · intro time htime
      obtain hold | hnew := List.mem_append.mp htime
      · have hbounds := hpath.bounds time hold
        omega
      · rw [List.mem_singleton.mp hnew]
        omega
    · simp
  · refine ⟨⟨emitted, htokens, hemitted⟩, hpath.length, hpath.increasing, ?_, ?_⟩
    · intro time htime
      have hbounds := hpath.bounds time htime
      omega
    · simp only [hpath.trailingBlanks]
      split
      · omega
      · rfl

/-- The times may come from either path, for both have the same tokens. -/
theorem InStep.combine [Add S] [Sub S] [LT S] [DecidableLT S] [LogScale S] {rule : MergeRule}
    {old new : Hypothesis S} (hsame : old.tokens = new.tokens) (hold : InStep net t old)
    (hnew : InStep net t new) : InStep net t (Hypotheses.combine rule old new) := by
  have htimes : InStep net t { Hypotheses.stronger old new with tokens := old.tokens } := by
    rw [Hypotheses.stronger]
    split
    · rw [hsame]
      exact hnew
    · exact hold
  exact ⟨htimes.tokens, htimes.length, htimes.increasing, htimes.bounds, htimes.trailingBlanks⟩

theorem predictAll_shaped (hnet : net.Shaped) (paths : List (Hypothesis S)) (network : σ) :
    Leaves (predict.predictAll net paths) network (fun rows _ => rows.length = paths.length)
      fun _ _ => True := by
  have hpredict (rows : List (List Int)) (network : σ)
      (hasked : net.batched = true ∨ rows.length = 1) :
      Leaves (net.predict rows) network (fun out _ => out.length = rows.length)
        fun _ _ => True := by
    rw [Leaves]
    split
    · exact hnet.predict rows network _ _ hasked ‹_›
    · trivial
  refine .bind_answered (fun contexts hcontexts => ?_) fun _ _ => trivial
  have hlen : contexts.length = paths.length := by
    rw [contexts_inv hcontexts, List.length_map, List.length_map]
  rw [← hlen]
  exact length_predictRows (fun rows network hbatched => hpredict rows network (.inl hbatched))
    (fun row network => hpredict [row] network (.inr rfl)) contexts network

variable [Zero S] [Add S] [Sub S] [BEq S] [LT S] [DecidableLT S] [LogScale S]
variable {hs : Hypotheses S} {s : Session σ S}

theorem Surviving.following (h : Surviving net b t hs) (hwidth : 1 ≤ b.width) (ht : 0 ≤ t)
    {logits : List (List S)} {hs' : Hypotheses S}
    (hlogits : logits.length = (hs.top b.width).length)
    (hfollowing : following b graph t (hs.top b.width) logits = .ok hs') :
    Surviving net b (t + 1) hs' := by
  have hne : hs.entries ≠ [] := List.ne_nil_of_length_pos h.pos
  have htop : hs.top b.width ≠ [] := top_ne_nil hne (by omega)
  obtain ⟨rows, -, hsuccessors⟩ := following_inv hfollowing
  refine ⟨?_, ?_, nodup_successors hsuccessors, ?_⟩
  · exact List.length_pos_iff.mpr (following_ne_nil hfollowing hwidth htop hlogits)
  · exact Nat.le_trans (size_successors_le hsuccessors) (best_length_le _ _)
  · refine forall_successors hsuccessors ?_ fun old new => InStep.combine
    intro path hpath c _ h' hextend
    exact (h.inStep path (mem_of_mem_top hpath)).extend ht hextend

theorem decodeFrames_surviving (hnet : net.Shaped) (hwidth : 1 ≤ b.width)
    (isFirst : Bool) (frames : List (List S)) (ht : 0 ≤ t)
    (hkept : ∀ rows ∈ s.state.prediction, rows.length = 1) (h : Surviving net b t hs) :
    Leaves (decodeFrames net b graph isFirst t frames hs) s
      (fun hs' s' => Surviving net b (t + frames.length) hs' ∧ Consumed s.state s'.state)
      fun _ s' => True ∧ Consumed s.state s'.state := by
  have htop {t : Int} {hs : Hypotheses S} (h : Surviving net b t hs) : hs.top b.width ≠ [] :=
    top_ne_nil (List.ne_nil_of_length_pos h.pos) (by omega)
  refine (decodeFrames_leaves (I := fun t hs => 0 ≤ t ∧ Surviving net b t hs)
    (fun t hs h hnone => absurd hnone (htop h.2)) ?_ ⟨ht, h⟩).mono
    (fun _ _ h => ⟨h.1.2, h.2⟩) fun _ _ h => h
  intro isFirst t frame hs s' h hconsumed
  have hpredict : Leaves (predict net isFirst (hs.top b.width)) s'
      (fun rows s'' => rows.length = (hs.top b.width).length ∧ Consumed s'.state s''.state)
      fun _ s'' => True ∧ Consumed s'.state s''.state := by
    refine predict_leaves ?_ (predictAll_shaped hnet _)
    intro rows hrows path _ honly _
    rw [honly]
    obtain hsame | hgone := hconsumed
    · exact hkept rows (hsame ▸ hrows)
    · rw [hgone] at hrows
      cases hrows
  have hjoin (rows : List (List S)) (network : σ)
      (hrows : rows.length = (hs.top b.width).length) :
      Leaves (net.join frame rows) network
        (fun logits _ => logits.length = (hs.top b.width).length) fun _ _ => True := by
    rw [Leaves]
    split
    · exact (hnet.join frame rows network _ _ ‹_›).trans hrows
    · trivial
  refine (decodeFrame_leaves hpredict hjoin fun _ _ _ _ => trivial).mono ?_ fun _ _ h => h
  rintro hs' s'' ⟨⟨logits, hlogits, hfollowing⟩, hconsumed⟩
  exact ⟨⟨by omega, h.2.following hwidth h.1 hlogits hfollowing⟩, hconsumed⟩

/-- A chunk leaves the search abreast of its frames. -/
theorem decode_abreast (hnet : net.Shaped) (hwidth : 1 ≤ b.width) {n : Nat}
    {out : Argument S} {frames : List (List S)} (hframes : encoderFrames out = .ok frames)
    (h : Abreast net b n s.state) (hkept : ∀ rows ∈ s.state.prediction, rows.length = 1) :
    Leaves (decode net b graph out) s
      (fun _ s' => Abreast net b (n + frames.length) s'.state ∧
        ∀ rows ∈ s'.state.prediction, rows.length = 1)
      fun _ _ => True := by
  obtain ⟨hs, hhyps, hsurviving, hbest⟩ := h.paths
  by_cases hnil : frames = []
  · subst hnil
    rw [Leaves, decode_empty hframes hhyps]
    exact ⟨h, hkept⟩
  · have hoffset := h.frameOffset
    have hrun : Leaves (decodeFrames net b graph true s.state.frameOffset frames hs) s
        (fun hs' s' => Surviving net b (n + frames.length) hs' ∧ Consumed s.state s'.state)
        fun _ s' => True ∧ Consumed s.state s'.state := by
      rw [hoffset]
      exact decodeFrames_surviving hnet hwidth true frames (Int.natCast_nonneg n) hkept hsurviving
    refine (decode_leaves hframes hnil hhyps hrun
      fun _ h network _ _ => predictAll_shaped hnet [h] network).mono ?_ fun _ _ _ => trivial
    rintro _ s' ⟨hs', hs'surviving, ⟨hnone, -⟩ | ⟨h', rows, hbest', hrows, hstate⟩⟩
    · obtain ⟨h', hsome⟩ := exists_best (List.ne_nil_of_length_pos hs'surviving.pos)
      rw [hnone] at hsome
      cases hsome
    · rw [hstate]
      refine ⟨⟨?_, hs', rfl, ?_, h', ?_, rfl, rfl, rfl⟩, ?_⟩
      · rw [hoffset, Int.natCast_add]
      · rwa [Int.natCast_add]
      · rw [Hypotheses.best, hbest']
      · intro kept hkept
        exact Option.some.inj hkept ▸ hrows

theorem abreast_start (hwidth : 1 ≤ b.width) (bound : Option (Hotword.Graph S)) :
    Abreast net b 0 ((start net b).atRoot bound) := by
  have hone (h : Hypothesis S) (hh : InStep net 0 h) :
      Surviving net b 0 { rule := b.rule, entries := [h] } := by
    refine ⟨Nat.le_refl 1, hwidth, List.nodup_singleton _, ?_⟩
    intro h' hh'
    exact List.mem_singleton.mp hh' ▸ hh
  have hbest (h : Hypothesis S) : ({ rule := b.rule, entries := [h] } : Hypotheses S).best =
      .ok h := by
    rw [Hypotheses.best, best?_of_top_eq (top_singleton (Int.le_refl 1))]
  refine ⟨?_, _, hyps_start bound, hone _ (.blanks 0 _), _, hbest _, ?_, ?_, ?_⟩
  · cases bound <;> rfl
  · cases bound <;> rfl
  · cases bound <;> rfl
  · cases bound <;> rfl

theorem decodeChunks_leaves_abreast (hnet : net.Shaped) (hwidth : 1 ≤ b.width)
    {outs : List (Argument S)} {chunks : List (List (List S))} (houts : Chunks outs chunks)
    {n : Nat} (h : Abreast net b n s.state) (hkept : ∀ rows ∈ s.state.prediction, rows.length = 1) :
    Leaves (decodeChunks net b graph outs) s
      (fun _ s' => Abreast net b (n + chunks.flatten.length) s'.state) fun _ _ => True := by
  induction houts generalizing n s with
  | nil => exact .pure h
  | cons hframes _ ih =>
      refine .bind (decode_abreast hnet hwidth hframes h hkept) fun _ s' h' => ?_
      rw [List.flatten_cons, List.length_append, ← Nat.add_assoc]
      exact ih h'.1 h'.2

/-- After every chunk, a search from the start has between one path and as many as its beam is
wide, all with different tokens and in step with the frames decoded so far, and its result is the
best of them. Networks that answer let all chunks go through. -/
theorem decodeChunks_abreast {vocabulary : Nat} (hnet : net.Shaped) (b : Settings)
    (hwidth : 1 ≤ b.width) (graph bound : Option (Hotword.Graph S)) {outs : List (Argument S)}
    {chunks : List (List (List S))} (houts : Chunks outs chunks) (network : σ) :
    (∀ s', decodeChunks net b graph outs ⟨network, (start net b).atRoot bound⟩ = .ok () s' →
      Abreast net b chunks.flatten.length s'.state) ∧
    (net.Responding vocabulary → Anchored graph →
      ∃ s', decodeChunks net b graph outs ⟨network, (start net b).atRoot bound⟩ = .ok () s') := by
  have hstart : Abreast net b 0 ((start net b).atRoot bound) := abreast_start hwidth bound
  have hnone : ((start net b).atRoot bound).prediction = none := by cases bound <;> rfl
  constructor
  · intro s' hrun
    have hleaves : Leaves (decodeChunks net b graph outs) ⟨network, (start net b).atRoot bound⟩
        (fun _ s' => Abreast net b (0 + chunks.flatten.length) s'.state) fun _ _ => True :=
      decodeChunks_leaves_abreast hnet hwidth houts hstart (by simp [hnone])
    have hend := hleaves.of_ok hrun
    rwa [Nat.zero_add] at hend
  · intro hresponding hgraph
    have hyields : Yields (decodeChunks net b graph outs) ⟨network, (start net b).atRoot bound⟩
        fun _ s' => Sound net vocabulary graph s'.state :=
      decodeChunks_yields hresponding hgraph houts (sound_start hgraph bound)
    obtain ⟨_, s', hrun, -⟩ := hyields
    exact ⟨s', hrun⟩

theorem decodeChunks_abreast_undefined :
    let net := addingNetwork Float.ofInt 4
    let b : Settings := ⟨3, .logSumExp⟩
    let graph := Hotword.Graph.ofWeighted [([3, 1], (1.5 : Float))]
    let outs : List (Argument Float) :=
      [.array { shape := [1, 2, 4], data := #[0 / 0, 1 / 0, -1 / 0, 0, 1, 1, 1, 1] },
        .array { shape := [1, 0, 4], data := #[] },
        .array { shape := [1, 1, 4], data := #[0, 0 / 0, 2, 1 / 0] }]
    ∃ s', decodeChunks net b (some graph) outs
        ⟨(), (start net b).atRoot (some graph)⟩ = .ok () s' ∧
      Abreast net b 3 s'.state := by
  intro net b graph outs
  have houts : Chunks outs _ := .cons rfl (.cons rfl (.cons rfl .nil))
  have hgraph : Anchored (some graph) := by
    intro g hg
    obtain rfl := Option.some.inj hg
    exact ⟨_, rfl, by decide⟩
  obtain ⟨habreast, hruns⟩ := decodeChunks_abreast (addingNetwork_shaped Float.ofInt 4) b
    (by decide) (some graph) (some graph) houts ()
  have hnet : net.Responding 4 := addingNetwork_responding Float.ofInt (by decide) (by decide)
  obtain ⟨s', hrun⟩ := hruns hnet hgraph
  exact ⟨s', hrun, habreast s' hrun⟩

end Beam

end SpeechTransducer.Search
