import SpeechTransducer.Proofs.Search.Successors

/-!
What a frame and a chunk can do, whether or not the networks answer. A frame asks for predictions
and logits, and then follows the ranked paths without asking. A chunk goes through its frames, and
keeps the paths that it ends with, the best of them and the prediction for that one; until then the
stream's state stays, but for prediction rows that were used up.
-/

namespace SpeechTransducer.Search.Beam

variable {σ S : Type}

/-- The state is the same, but prediction rows kept before may be gone. -/
def Consumed (st st' : State S) : Prop := st' = st ∨ st' = { st with prediction := none }

theorem Consumed.refl (st : State S) : Consumed st st := .inl rfl

theorem Consumed.trans {st st' st'' : State S} (h : Consumed st st') (h' : Consumed st' st'') :
    Consumed st st'' := by
  obtain rfl | rfl := h'
  · exact h
  · obtain rfl | rfl := h
    · exact .inr rfl
    · exact .inr rfl

theorem Consumed.hyps {st st' : State S} (h : Consumed st st') : st'.hyps = st.hyps := by
  obtain rfl | rfl := h
  · rfl
  · rfl

theorem Consumed.frameOffset {st st' : State S} (h : Consumed st st') :
    st'.frameOffset = st.frameOffset := by
  obtain rfl | rfl := h
  · rfl
  · rfl

theorem Consumed.path {st st' : State S} (h : Consumed st st') :
    st'.tokens = st.tokens ∧ st'.timestamps = st.timestamps ∧
      st'.trailingBlanks = st.trailingBlanks := by
  obtain rfl | rfl := h
  · exact ⟨rfl, rfl, rfl⟩
  · exact ⟨rfl, rfl, rfl⟩

theorem Consumed.prediction {st st' : State S} (h : Consumed st st') :
    st'.prediction = st.prediction ∨ st'.prediction = none := by
  obtain rfl | rfl := h
  · exact .inl rfl
  · exact .inr rfl

section

variable [BEq S] [LT S] [DecidableLT S] {hs : Hypotheses S}

theorem ranked_perm : hs.ranked.Perm hs.entries := Ranking.rank_perm _ _

theorem top_ne_nil {k : Int} (hne : hs.entries ≠ []) (hk : 1 ≤ k) : hs.top k ≠ [] := by
  have hlen : hs.ranked.length = hs.entries.length := ranked_perm.length_eq
  have hpos := List.length_pos_iff.mpr hne
  apply List.ne_nil_of_length_pos
  rw [Hypotheses.top, List.length_take]
  omega

theorem top_perm {k : Nat} (hsize : hs.size ≤ k) : (hs.top k).Perm hs.entries := by
  have hlen : hs.ranked.length = hs.size := ranked_perm.length_eq
  rw [Hypotheses.top, List.take_of_length_le (by omega)]
  exact ranked_perm

theorem length_top_le (k : Int) : (hs.top k).length ≤ hs.size := by
  have hlen : hs.ranked.length = hs.size := ranked_perm.length_eq
  rw [Hypotheses.top, List.length_take]
  omega

theorem exists_best (hne : hs.entries ≠ []) : ∃ h, hs.best? = some h := by
  obtain ⟨h, rest, hcons⟩ := List.exists_cons_of_ne_nil (top_ne_nil hne (Int.le_refl 1))
  exact ⟨h, by rw [Hypotheses.best?, hcons, List.head?_cons]⟩

theorem best?_of_top_eq {k : Int} {path : Hypothesis S} (h : hs.top k = [path]) :
    hs.best? = some path := by
  rw [Hypotheses.best?, Hypotheses.top]
  cases hranked : hs.ranked with
  | nil =>
      rw [Hypotheses.top, hranked, List.take_nil] at h
      cases h
  | cons first rest =>
      have hmem : path ∈ hs.top k := h ▸ List.mem_singleton_self path
      rw [Hypotheses.top, hranked] at h hmem
      cases hk : k.toNat with
      | zero =>
          rw [hk] at hmem
          cases hmem
      | succ n =>
          rw [hk, List.take_succ_cons] at h
          exact congrArg some (List.cons.inj h).1

theorem top_singleton {rule : MergeRule} {path : Hypothesis S} {k : Int} (hk : 1 ≤ k) :
    ({ rule, entries := [path] } : Hypotheses S).top k = [path] := by
  have hranked : ({ rule, entries := [path] } : Hypotheses S).ranked = [path] :=
    List.perm_singleton.mp ranked_perm
  rw [Hypotheses.top, hranked]
  exact List.take_of_length_le (by simp; omega)

end

variable {net : Network σ S} {s : Session σ S} {paths : List (Hypothesis S)} {Q : Fault → Prop}

theorem contexts_inv {tokens rows : List (List Int)} (h : net.contexts tokens = .ok rows) :
    rows = tokens.map net.context := by
  rw [Network.contexts, tokenRows] at h
  obtain ⟨_, -, h⟩ := bind_inv h
  dsimp only at h
  split at h
  · cases h
  · exact (Except.ok.inj h).symm

section

variable {P : List (List S) → Prop}

theorem predict_leaves {isFirst : Bool}
    (hkept : ∀ rows ∈ s.state.prediction, ∀ path, isFirst = true → paths = [path] →
      path.tokens.length = net.contextSize → P rows)
    (hall : ∀ network,
      Leaves (predict.predictAll net paths) network (fun rows _ => P rows) fun e _ => Q e) :
    Leaves (predict net isFirst paths) s (fun rows s' => P rows ∧ Consumed s.state s'.state)
      fun e s' => Q e ∧ Consumed s.state s'.state := by
  have hasked : Leaves (ask (predict.predictAll net paths)) s
      (fun rows s' => P rows ∧ Consumed s.state s'.state)
      fun e s' => Q e ∧ Consumed s.state s'.state :=
    .ask (hall s.network) (fun _ _ hrows => ⟨hrows, .refl _⟩) fun _ _ he => ⟨he, .refl _⟩
  refine .bind_look ?_
  split
  · rename_i rows path hrows
    split
    · rename_i hfirst
      rw [Bool.and_eq_true, beq_iff_eq] at hfirst
      refine .bind_change (.pure ⟨?_, .inr rfl⟩)
      exact hkept rows hrows path hfirst.1 rfl hfirst.2
    · exact hasked
  · exact hasked

end

/-- A prediction uses up the rows that were kept for it, at most. -/
theorem predict_consumed (isFirst : Bool) (paths : List (Hypothesis S)) :
    Leaves (predict net isFirst paths) s (fun _ s' => True ∧ Consumed s.state s'.state)
      fun _ s' => True ∧ Consumed s.state s'.state :=
  predict_leaves (fun _ _ _ _ _ _ => trivial) fun _ => .trivial

variable [Zero S] [Add S] [Sub S] [BEq S] [LT S] [DecidableLT S] [LogScale S]
variable {b : Settings} {graph : Option (Hotword.Graph S)}

/-- The paths that follow the ranked ones, given the logits of a frame. -/
def following (b : Settings) (graph : Option (Hotword.Graph S)) (t : Int)
    (paths : List (Hypothesis S)) (logits : List (List S)) : Except Fault (Hypotheses S) := do
  let rows ← scoreRows paths logits
  successors b graph t paths (best b.width (candidates rows))

theorem following_inv {t : Int} {logits : List (List S)} {hs : Hypotheses S}
    (h : following b graph t paths logits = .ok hs) :
    ∃ rows, scoreRows paths logits = .ok rows ∧
      successors b graph t paths (best b.width (candidates rows)) = .ok hs :=
  bind_inv h

theorem extensionScores_inv {path : Hypothesis S} {logits row : List S}
    (h : extensionScores path logits = .ok row) : row.length = logits.length ∧ row ≠ [] := by
  cases logits with
  | nil => cases h
  | cons x xs =>
      obtain ⟨row', hrow', hlen⟩ := extensionScores_eq_ok path (List.cons_ne_nil x xs)
      obtain rfl := Except.ok.inj (h.symm.trans hrow')
      refine ⟨hlen, List.ne_nil_of_length_pos ?_⟩
      rw [hlen, List.length_cons]
      omega

/-- There are as many rows of scores as of logits, and none of them is empty. -/
theorem scoreRows_inv {logits rows : List (List S)} (h : scoreRows paths logits = .ok rows) :
    rows.length = logits.length ∧
      ∀ row ∈ rows, row ≠ [] ∧ ∃ given ∈ logits, row.length = given.length := by
  obtain ⟨ranked, hranked, hscores⟩ := bind_inv h
  have hmap := mapM_inv hscores
  constructor
  · have hlen := congrArg List.length hmap
    rw [List.length_map, List.length_map, List.length_zip, length_owners hranked,
      Nat.min_self] at hlen
    exact hlen.symm
  · intro row hrow
    have hmem : Except.ok row ∈ rows.map (Except.ok : _ → Except Fault _) :=
      List.mem_map_of_mem hrow
    rw [← hmap] at hmem
    obtain ⟨⟨path, given⟩, hzip, hscores⟩ := List.mem_map.mp hmem
    obtain ⟨hlen, hne⟩ := extensionScores_inv hscores
    exact ⟨hne, given, (List.of_mem_zip hzip).2, hlen⟩

/-- Where every ranked path has logits, some path follows. -/
theorem following_ne_nil {t : Int} {logits : List (List S)} {hs : Hypotheses S}
    (h : following b graph t paths logits = .ok hs) (hwidth : 1 ≤ b.width) (hne : paths ≠ [])
    (hlogits : logits.length = paths.length) : hs.entries ≠ [] := by
  obtain ⟨rows, hrows, hsuccessors⟩ := following_inv h
  obtain ⟨hlen, hfull⟩ := scoreRows_inv hrows
  rw [hlogits] at hlen
  have hsome : rows ≠ [] := by
    apply List.ne_nil_of_length_pos
    exact hlen ▸ List.length_pos_iff.mpr hne
  obtain ⟨row, rest, rfl⟩ := List.exists_cons_of_ne_nil hsome
  have hchosen : best b.width (candidates (row :: rest)) ≠ [] :=
    best_ne_nil hwidth
      (candidates_ne_nil ⟨row, List.mem_cons_self, (hfull row List.mem_cons_self).1⟩)
  obtain ⟨c, others, hcons⟩ := List.exists_cons_of_ne_nil hchosen
  have hc : c ∈ best b.width (candidates (row :: rest)) := hcons ▸ List.mem_cons_self
  exact successors_ne_nil hsuccessors
    ⟨c, hc, hlen ▸ path_lt_of_mem_candidates (mem_of_mem_best hc)⟩

theorem decodeFrame_leaves {P J : List (List S) → Prop} {isFirst : Bool} {t : Int} {frame : List S}
    (hpredict : Leaves (predict net isFirst paths) s
      (fun rows s' => P rows ∧ Consumed s.state s'.state)
      fun e s' => Q e ∧ Consumed s.state s'.state)
    (hjoin : ∀ rows network, P rows →
      Leaves (net.join frame rows) network (fun logits _ => J logits) fun e _ => Q e)
    (hfault : ∀ logits e, J logits → following b graph t paths logits = .error e → Q e) :
    Leaves (decodeFrame net b graph isFirst t frame paths) s
      (fun hs s' => (∃ logits, J logits ∧ following b graph t paths logits = .ok hs) ∧
        Consumed s.state s'.state)
      fun e s' => Q e ∧ Consumed s.state s'.state := by
  refine .bind hpredict fun rows s₁ h₁ => ?_
  refine .bind_ask (hjoin rows s₁.network h₁.1) (fun logits network hlogits => ?_)
    fun e _ he => ⟨he, h₁.2⟩
  refine .bind_answered (fun scores hscores => ?_) fun e he => ?_
  · have hfollowing : following b graph t paths logits =
        successors b graph t paths (best b.width (candidates scores)) := by
      rw [following, hscores]
      rfl
    rw [← hfollowing]
    exact .answered (fun hs hhs => ⟨⟨logits, hlogits, hhs⟩, h₁.2⟩)
      fun e he => ⟨hfault logits e hlogits he, h₁.2⟩
  · have hfollowing : following b graph t paths logits = .error e := by
      rw [following, he]
      rfl
    exact ⟨hfault logits e hlogits hfollowing, h₁.2⟩

/-- Whatever the networks answer, a frame follows its paths on some logits. -/
theorem decodeFrame_consumed (isFirst : Bool) (t : Int) (frame : List S)
    (paths : List (Hypothesis S)) :
    Leaves (decodeFrame net b graph isFirst t frame paths) s
      (fun hs s' => (∃ logits, following b graph t paths logits = .ok hs) ∧
        Consumed s.state s'.state)
      fun _ s' => True ∧ Consumed s.state s'.state := by
  refine (decodeFrame_leaves (J := fun _ => True) (predict_consumed isFirst paths)
    (fun _ _ _ => .trivial) fun _ _ _ _ => trivial).mono ?_ fun _ _ h => h
  rintro hs s' ⟨⟨logits, -, hfollowing⟩, hconsumed⟩
  exact ⟨⟨logits, hfollowing⟩, hconsumed⟩

/-- What one frame keeps up is kept up by all frames of a chunk. -/
theorem decodeFrames_leaves {I : Int → Hypotheses S → Prop} {isFirst : Bool} {t : Int}
    {frames : List (List S)} {hs : Hypotheses S}
    (hstop : ∀ t hs, I t hs → hs.top b.width = [] → ∀ t', I t' hs)
    (hframe : ∀ isFirst t frame hs s', I t hs → Consumed s.state s'.state →
      Leaves (decodeFrame net b graph isFirst t frame (hs.top b.width)) s'
        (fun hs' s'' => I (t + 1) hs' ∧ Consumed s'.state s''.state)
        fun e s'' => Q e ∧ Consumed s'.state s''.state)
    (h : I t hs) :
    Leaves (decodeFrames net b graph isFirst t frames hs) s
      (fun hs' s' => I (t + frames.length) hs' ∧ Consumed s.state s'.state)
      fun e s' => Q e ∧ Consumed s.state s'.state := by
  induction frames generalizing isFirst t hs s with
  | nil =>
      refine .pure ⟨?_, .refl _⟩
      rwa [List.length_nil, Int.natCast_zero, Int.add_zero]
  | cons frame frames ih =>
      rw [decodeFrames]
      split
      · rename_i hnone
        exact .pure ⟨hstop t hs h hnone _, .refl _⟩
      · refine .bind (hframe isFirst t frame hs s h (.refl _)) fun hs' s' hnext => ?_
        have hcount : t + ((frame :: frames).length : Int) = t + 1 + frames.length := by
          rw [List.length_cons]
          omega
        rw [hcount]
        refine (ih (fun isFirst t frame hs s'' hI hconsumed =>
          hframe isFirst t frame hs s'' hI (hnext.2.trans hconsumed)) hnext.1).mono ?_ ?_
        · exact fun _ _ hend => ⟨hend.1, hnext.2.trans hend.2⟩
        · exact fun _ _ hend => ⟨hend.1, hnext.2.trans hend.2⟩

theorem decode_empty {out : Argument S} {hs : Hypotheses S} (hframes : encoderFrames out = .ok [])
    (hhyps : s.state.hyps = some hs) : decode net b graph out s = .ok () s := by
  simp [decode, hframes, answered, look, hhyps, bind, EStateM.bind, pure, EStateM.pure]

/-- A chunk with frames keeps what its frames end with; a failure keeps at least the paths. -/
theorem decode_leaves {I : Hypotheses S → Prop} {R : Hypothesis S → List (List S) → Prop}
    {out : Argument S} {frames : List (List S)} {hs : Hypotheses S}
    (hframes : encoderFrames out = .ok frames) (hne : frames ≠ []) (hhyps : s.state.hyps = some hs)
    (hrun : Leaves (decodeFrames net b graph true s.state.frameOffset frames hs) s
      (fun hs' s' => I hs' ∧ Consumed s.state s'.state) fun e s' => Q e ∧ Consumed s.state s'.state)
    (hpredict : ∀ hs' h network, I hs' → hs'.best? = some h →
      Leaves (predict.predictAll net [h]) network (fun rows _ => R h rows) fun e _ => Q e) :
    Leaves (decode net b graph out) s
      (fun _ s' => ∃ hs', I hs' ∧
        ((hs'.best? = none ∧ s'.state.hyps = some hs) ∨
          ∃ h rows, hs'.best? = some h ∧ R h rows ∧ s'.state =
            { tokens := h.tokens
              timestamps := h.timestamps
              frameOffset := s.state.frameOffset + frames.length
              trailingBlanks := h.trailingBlanks
              hyps := some hs'
              prediction := some rows }))
      fun e s' => Q e ∧
        (s'.state.hyps = some hs ∨ ∃ hs', I hs' ∧ s'.state.hyps = some hs') := by
  have hfull : frames.isEmpty = false := by simpa using hne
  refine .bind_answered (fun frames' hframes' => ?_) fun e he => by rw [hframes] at he; cases he
  obtain rfl := Except.ok.inj (hframes.symm.trans hframes')
  refine .bind_look ?_
  dsimp only [id]
  rw [hhyps]
  simp only [hfull]
  refine .bind (hrun.mono (fun _ _ h => h) fun e s' h => ⟨h.1, .inl (h.2.hyps.trans hhyps)⟩) ?_
  rintro hs' s₁ ⟨hI, hconsumed⟩
  refine .bind_change ?_
  split
  · rename_i hbest
    exact .pure ⟨hs', hI, .inl ⟨hbest, hconsumed.hyps.trans hhyps⟩⟩
  · rename_i h hbest
    refine .bind_change (.bind_ask (hpredict hs' h _ hI hbest) (fun rows _ hrows => ?_) ?_)
    · refine .change ⟨hs', hI, .inr ⟨h, rows, hbest, hrows, ?_⟩⟩
      simp [hconsumed.frameOffset]
    · exact fun e _ he => ⟨he, .inr ⟨hs', hI, rfl⟩⟩

end SpeechTransducer.Search.Beam
