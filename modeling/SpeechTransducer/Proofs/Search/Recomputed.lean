import SpeechTransducer.Proofs.Search.Narrow
import SpeechTransducer.Proofs.Search.Whole

/-!
Greedy search on all frames at once, with the prediction for the last tokens computed anew at every
frame. A search that goes through the same frames chunk by chunk, and asks for a prediction only
after an emission, ends in the same state or with the same fault. Rows that the search starts with
stand for the prediction at all frames up to the first emission.
-/

namespace SpeechTransducer.Search

variable {σ S : Type}

/-- Networks whose answers depend on nothing but what they are asked: the prediction network gives
the rows or the fault that `f` gives, and the joiner those that `g` gives. -/
structure Network.Functional (net : Network σ S)
    (f : List (List Int) → Except Fault (List (List S)))
    (g : List S → List (List S) → Except Fault (List (List S))) : Prop where
  predict : ∀ rows network,
    Leaves (net.predict rows) network (fun out _ => f rows = .ok out) fun e _ => f rows = .error e
  join : ∀ frame rows network, Leaves (net.join frame rows) network
    (fun out _ => g frame rows = .ok out) fun e _ => g frame rows = .error e

section

variable {α β : Type} {s : Session σ S}

/-- What a step of a search gives, and the state that it leaves, or else its fault, are known
beforehand. -/
def Reaches (m : Run σ S α) (s : Session σ S) (x : Except Fault (α × State S)) : Prop :=
  Leaves m s (fun a s' => x = .ok (a, s'.state)) fun e _ => x = .error e

theorem Reaches.pure (a : α) : Reaches (pure a) s (.ok (a, s.state)) := Leaves.pure rfl

theorem Reaches.bind {m : Run σ S α} {k : α → Run σ S β} {x : Except Fault (α × State S)}
    {y : α × State S → Except Fault (β × State S)} (hm : Reaches m s x)
    (hk : ∀ a s', x = .ok (a, s'.state) → Reaches (k a) s' (y (a, s'.state))) :
    Reaches (m >>= k) s (x >>= y) := by
  refine Leaves.bind (hm.mono (fun _ _ h => h) ?_) ?_
  · rintro e s' rfl
    rfl
  · rintro a s' rfl
    exact hk a s' rfl

theorem Reaches.bind_answered {x : Except Fault α} {k : α → Run σ S β}
    {y : α → Except Fault (β × State S)} (hk : ∀ a, x = .ok a → Reaches (k a) s (y a)) :
    Reaches (answered x >>= k) s (x >>= y) := by
  refine Leaves.bind_answered ?_ ?_
  · rintro a rfl
    exact hk a rfl
  · rintro e rfl
    rfl

theorem Reaches.ask {call : EStateM Fault σ α} {x : Except Fault α}
    (hcall : Leaves call s.network (fun a _ => x = .ok a) fun e _ => x = .error e) :
    Reaches (Search.ask call) s ((·, s.state) <$> x) := by
  refine Leaves.ask hcall ?_ ?_
  · rintro a network rfl
    rfl
  · rintro e network rfl
    rfl

theorem Reaches.bind_ask {call : EStateM Fault σ α} {x : Except Fault α} {k : α → Run σ S β}
    {y : α → Except Fault (β × State S)}
    (hcall : Leaves call s.network (fun a _ => x = .ok a) fun e _ => x = .error e)
    (hk : ∀ a network, x = .ok a → Reaches (k a) { s with network } (y a)) :
    Reaches (Search.ask call >>= k) s (x >>= y) := by
  refine Leaves.bind_ask hcall ?_ ?_
  · rintro a network rfl
    exact hk a network rfl
  · rintro e network rfl
    rfl

end

namespace Greedy

variable {net : Network σ S} {f : List (List Int) → Except Fault (List (List S))}
variable {g : List S → List (List S) → Except Fault (List (List S))}

/-- The prediction rows for a path with these tokens. -/
def prediction (net : Network σ S) (f : List (List Int) → Except Fault (List (List S)))
    (tokens : List Int) : Except Fault (List (List S)) := do
  f (← net.contexts [tokens])

/-- The prediction rows for a path with these tokens, unless other rows stand for them. -/
def predictionOr (net : Network σ S) (f : List (List Int) → Except Fault (List (List S)))
    (kept : Option (List (List S))) (tokens : List Int) : Except Fault (List (List S)) :=
  match kept with
  | some rows => .ok rows
  | none => prediction net f tokens

namespace Recomputed

variable [BEq S] [LT S] [DecidableLT S]

/-- The state after frames, from the one with number `t` on, and the prediction rows for its tokens.
Other rows may stand for the prediction until a token is emitted. -/
def follow (net : Network σ S) (f : List (List Int) → Except Fault (List (List S)))
    (g : List S → List (List S) → Except Fault (List (List S))) :
    Option (List (List S)) → Int → List (List S) → State S →
      Except Fault (List (List S) × State S)
  | kept, _, [], st => do
    let rows ← predictionOr net f kept st.tokens
    return (rows, st)
  | kept, t, frame :: frames, st => do
    let rows ← predictionOr net f kept st.tokens
    let logits ← g frame rows
    let token ← bestToken logits
    if isEmission token then follow net f g none (t + 1) frames (st.emit token t)
    else follow net f g kept (t + 1) frames st.rest

/-- The state that is noted after so many frames, with the prediction rows for its tokens. -/
def noted (count : Nat) (p : List (List S) × State S) : State S :=
  { p.2 with
    frameOffset := p.2.frameOffset + count
    prediction := some p.1 }

/-- Decodes frames in one loop. -/
def decode (net : Network σ S) (f : List (List Int) → Except Fault (List (List S)))
    (g : List S → List (List S) → Except Fault (List (List S))) (frames : List (List S))
    (st : State S) : Except Fault (State S) :=
  noted frames.length <$> follow net f g st.prediction st.frameOffset frames st

variable {kept : Option (List (List S))} {t : Int} {frames more : List (List S)} {st : State S}

/-- Rows that are what the prediction gives may stand for it. -/
theorem follow_eq_bind :
    follow net f g kept t frames st = predictionOr net f kept st.tokens >>= fun rows =>
      follow net f g (some rows) t frames st := by
  induction frames generalizing t st with
  | nil =>
      rw [follow]
      cases predictionOr net f kept st.tokens with
      | error e => rfl
      | ok rows => rfl
  | cons frame frames ih =>
      rw [follow]
      cases h : predictionOr net f kept st.tokens with
      | error e => rfl
      | ok rows =>
          change _ = follow net f g (some rows) t (frame :: frames) st
          rw [follow]
          refine congrArg (g frame rows >>= ·) (funext fun logits => ?_)
          refine congrArg (bestToken logits >>= ·) (funext fun token => ?_)
          split
          · rfl
          · have hsame : predictionOr net f kept st.rest.tokens = .ok rows := h
            rw [ih, hsame]
            rfl

theorem follow_append :
    follow net f g kept t (frames ++ more) st =
      follow net f g kept t frames st >>= fun p =>
        follow net f g (some p.1) (t + frames.length) more p.2 := by
  induction frames generalizing kept t st with
  | nil =>
      rw [List.nil_append, List.length_nil, Int.natCast_zero, Int.add_zero, follow_eq_bind, follow]
      simp only [bind_assoc, pure_bind]
  | cons frame frames ih =>
      have hcount : t + ((frame :: frames).length : Int) = t + 1 + frames.length := by
        rw [List.length_cons]
        omega
      rw [List.cons_append, follow, follow, hcount]
      simp only [bind_assoc]
      refine congrArg (predictionOr net f kept st.tokens >>= ·) (funext fun rows => ?_)
      refine congrArg (g frame rows >>= ·) (funext fun logits => ?_)
      refine congrArg (bestToken logits >>= ·) (funext fun token => ?_)
      split
      · exact ih
      · exact ih

/-- Frames do not look at what is only noted between chunks. -/
theorem follow_noting (st : State S) (offset : Int) (noted : Option (List (List S))) :
    follow net f g kept t frames { st with frameOffset := offset, prediction := noted } =
      (fun p => (p.1, { p.2 with frameOffset := offset, prediction := noted })) <$>
        follow net f g kept t frames st := by
  induction frames generalizing kept t st with
  | nil =>
      rw [follow, follow]
      cases predictionOr net f kept st.tokens with
      | error e => rfl
      | ok rows => rfl
  | cons frame frames ih =>
      rw [follow, follow]
      simp only [map_bind]
      refine congrArg (predictionOr net f kept st.tokens >>= ·) (funext fun rows => ?_)
      refine congrArg (g frame rows >>= ·) (funext fun logits => ?_)
      refine congrArg (bestToken logits >>= ·) (funext fun token => ?_)
      split
      · exact ih (st.emit token t)
      · exact ih st.rest

theorem frameOffset_follow {p : List (List S) × State S}
    (h : follow net f g kept t frames st = .ok p) : p.2.frameOffset = st.frameOffset := by
  have hnoting : follow net f g kept t frames st = _ :=
    follow_noting st st.frameOffset st.prediction
  rw [h] at hnoting
  exact congrArg (·.2.frameOffset) (Except.ok.inj hnoting)

theorem decode_append :
    decode net f g (frames ++ more) st =
      decode net f g frames st >>= decode net f g more := by
  rw [decode, decode, follow_append]
  cases hfollow : follow net f g st.prediction st.frameOffset frames st with
  | error e => rfl
  | ok p =>
      -- The second loop starts from what the first has noted, which its frames do not look at.
      have hoffset := frameOffset_follow hfollow
      have hnoted : follow net f g (some p.1) (st.frameOffset + frames.length) more
          (noted frames.length p) = _ := follow_noting _ _ _
      change noted (frames ++ more).length <$>
          follow net f g (some p.1) (st.frameOffset + frames.length) more p.2 =
        noted more.length <$>
          follow net f g (some p.1) (p.2.frameOffset + frames.length) more (noted frames.length p)
      rw [hoffset, hnoted]
      cases hmore : follow net f g (some p.1) (st.frameOffset + frames.length) more p.2 with
      | error e => rfl
      | ok q =>
          have hcount : q.2.frameOffset + ((frames ++ more).length : Int) =
              p.2.frameOffset + frames.length + more.length := by
            rw [frameOffset_follow hmore, List.length_append, Int.natCast_add, Int.add_assoc]
          exact congrArg (fun offset => Except.ok { q.2 with
            frameOffset := offset, prediction := some q.1 }) hcount

theorem decode_nil {rows : List (List S)} (h : st.prediction = some rows) :
    decode net f g [] st = .ok st := by
  have hnoted : noted 0 (rows, st) = st := by
    rw [noted, ← h]
    exact congrArg (fun offset => { st with frameOffset := offset }) (Int.add_zero _)
  rw [decode, h]
  exact congrArg Except.ok hnoted

/-- The prediction is noted for the next chunk. -/
theorem prediction_decode {st' : State S} (h : decode net f g frames st = .ok st') :
    ∃ rows, st'.prediction = some rows := by
  rw [decode] at h
  cases hfollow : follow net f g st.prediction st.frameOffset frames st with
  | error e =>
      rw [hfollow] at h
      cases h
  | ok p =>
      rw [hfollow] at h
      exact ⟨p.1, congrArg State.prediction (Except.ok.inj h).symm⟩

end Recomputed

variable {kept : Option (List (List S))} {t : Int} {frames more : List (List S)}
variable {s : Session σ S}

theorem predict_functional (hnet : net.Functional f g) (tokens : List Int) (network : σ) :
    Leaves (predict net tokens) network (fun rows _ => prediction net f tokens = .ok rows)
      fun e _ => prediction net f tokens = .error e := by
  rw [prediction]
  refine .bind_answered (fun rows hrows => ?_) fun e he => ?_
  · rw [hrows]
    exact hnet.predict rows network
  · rw [he]
    rfl

variable [BEq S] [LT S] [DecidableLT S]

/-- After an emission the rows that are asked for are the prediction. -/
theorem decodeFrame_reaches (hnet : net.Functional f g) (t : Int) (frame : List S)
    (rows : List (List S)) :
    Reaches (decodeFrame net t frame rows) s (do
      let logits ← g frame rows
      let token ← bestToken logits
      if isEmission token then
        (·, s.state.emit token t) <$> prediction net f (s.state.emit token t).tokens
      else .ok (rows, s.state.rest)) := by
  refine .bind_ask (hnet.join frame rows s.network) fun logits network _ => ?_
  refine .bind_answered fun token _ => ?_
  split
  · exact Leaves.bind_change (Leaves.bind_look (Reaches.ask (predict_functional hnet _ network)))
  · exact Leaves.bind_change (Leaves.pure rfl)

theorem decodeFrames_reaches (hnet : net.Functional f g) (t : Int) (frames : List (List S))
    (rows : List (List S)) :
    Reaches (decodeFrames net t frames rows) s
      (Recomputed.follow net f g (some rows) t frames s.state) := by
  induction frames generalizing t rows s with
  | nil => exact .pure rows
  | cons frame frames ih =>
      have hrun : Reaches (decodeFrames net t (frame :: frames) rows) s _ :=
        (decodeFrame_reaches hnet t frame rows).bind
          (y := fun p => Recomputed.follow net f g (some p.1) (t + 1) frames p.2)
          fun rows' s' _ => ih (t + 1) rows'
      -- After an emission the loop has no rows and asks; the search has asked already.
      refine cast (congrArg (Reaches _ s) ?_) hrun
      rw [Recomputed.follow]
      simp only [bind_assoc, predictionOr]
      refine congrArg (g frame rows >>= ·) (funext fun logits => ?_)
      refine congrArg (bestToken logits >>= ·) (funext fun token => ?_)
      split
      · rw [Recomputed.follow_eq_bind, bind_map_left]
        rfl
      · rfl

/-- A chunk leads where the loop over its frames leads. -/
theorem decode_recomputed (hnet : net.Functional f g) {out : Argument S}
    (hframes : encoderFrames out = .ok frames) :
    Leaves (decode net out) s (fun _ s' => Recomputed.decode net f g frames s.state = .ok s'.state)
      fun e _ => Recomputed.decode net f g frames s.state = .error e := by
  have hloop : Recomputed.decode net f g frames s.state =
      predictionOr net f s.state.prediction s.state.tokens >>= fun rows =>
        Recomputed.noted frames.length <$>
          Recomputed.follow net f g (some rows) s.state.frameOffset frames s.state := by
    rw [Recomputed.decode, Recomputed.follow_eq_bind, map_bind]
  have hkept (rows : List (List S)) (hrows : rows ∈ s.state.prediction) :
      predictionOr net f s.state.prediction s.state.tokens = .ok rows := by
    rw [Option.mem_def.mp hrows]
    rfl
  rw [hloop]
  refine decode_leaves
    (Q := fun e => predictionOr net f s.state.prediction s.state.tokens = .error e) hframes hkept
    (fun hnone => ?_) (fun e network he => ?_) fun rows network hrows => ?_
  · rw [hnone]
    exact predict_functional hnet _ s.network
  · rw [he]
    rfl
  · have hrun : Reaches (decodeFrames net s.state.frameOffset frames rows) { s with network } _ :=
      decodeFrames_reaches hnet s.state.frameOffset frames rows
    rw [hrows]
    refine hrun.mono (fun rows' s' h => ?_) fun e _ he => ?_
    · exact congrArg (Recomputed.noted frames.length <$> ·) h
    · exact congrArg (Recomputed.noted frames.length <$> ·) he

/-- Networks that always answer: with one row for one row, and with logits for at least one token
and for no more than arrays can number. -/
structure Total (f : List (List Int) → Except Fault (List (List S)))
    (g : List S → List (List S) → Except Fault (List (List S))) : Prop where
  predict : ∀ row, ∃ out, f [row] = .ok [out]
  join : ∀ frame row, ∃ logits, g frame [row] = .ok [logits] ∧ logits ≠ [] ∧
    logits.length ≤ 2 ^ 63

theorem exists_follow (hfg : Total f g) {st : State S} (hkept : ∀ rows ∈ kept, rows.length = 1)
    (htokens : ∀ token ∈ st.tokens, Number.fitsWord token = true) :
    ∃ p, Recomputed.follow net f g kept t frames st = .ok p := by
  have hrows (kept : Option (List (List S))) (tokens : List Int)
      (hkept : ∀ rows ∈ kept, rows.length = 1)
      (htokens : ∀ token ∈ tokens, Number.fitsWord token = true) :
      ∃ row, predictionOr net f kept tokens = .ok [row] := by
    cases kept with
    | some rows =>
        obtain ⟨row, rfl⟩ := List.length_eq_one_iff.mp (hkept rows rfl)
        exact ⟨row, rfl⟩
    | none =>
        rw [predictionOr, prediction, Beam.contexts_singleton htokens]
        exact hfg.predict (net.context tokens)
  induction frames generalizing kept t st with
  | nil =>
      obtain ⟨row, hrow⟩ := hrows kept st.tokens hkept htokens
      rw [Recomputed.follow, hrow]
      exact ⟨_, rfl⟩
  | cons frame frames ih =>
      obtain ⟨row, hrow⟩ := hrows kept st.tokens hkept htokens
      obtain ⟨logits, hlogits, hne, hle⟩ := hfg.join frame row
      obtain ⟨v, hv, hbest⟩ : ∃ v < logits.length, bestToken [logits] = .ok (v : Int) :=
        bestToken_eq_ok (List.length_pos_iff.mpr hne) rfl
          fun _ h => congrArg _ (List.mem_singleton.mp h)
      have hstep : Recomputed.follow net f g kept t (frame :: frames) st =
          if isEmission (v : Int) then
            Recomputed.follow net f g none (t + 1) frames (st.emit v t)
          else Recomputed.follow net f g kept (t + 1) frames st.rest := by
        rw [Recomputed.follow, hrow]
        simp only [bind, Except.bind, hlogits, hbest]
      rw [hstep]
      split
      · refine ih (by simp) fun token htoken => ?_
        obtain hold | hnew := List.mem_append.mp htoken
        · exact htokens token hold
        · rw [List.mem_singleton.mp hnew, Number.fitsWord, Bool.and_eq_true, decide_eq_true_iff,
            decide_eq_true_iff]
          omega
      · exact ih hkept htokens

/-- Chunk after chunk leads where one loop over all frames leads. -/
theorem reached_decodeChunks (hnet : net.Functional f g) {outs : List (Argument S)}
    {chunks : List (List (List S))} (houts : Beam.Chunks outs chunks)
    (hasked : outs ≠ [] ∨ ∃ rows, s.state.prediction = some rows) :
    Beam.reached (decodeChunks net outs s) =
      Recomputed.decode net f g chunks.flatten s.state := by
  induction houts generalizing s with
  | nil =>
      obtain ⟨rows, hrows⟩ := hasked.resolve_left (not_not_intro rfl)
      exact (Recomputed.decode_nil hrows).symm
  | @cons out frames outs chunks hframes _ ih =>
      have hchunk : Leaves (decode net out) s _ _ := decode_recomputed hnet hframes
      have hbind : decodeChunks net (out :: outs) s =
          EStateM.bind (decode net out) (fun _ => decodeChunks net outs) s := rfl
      rw [hbind, EStateM.bind, List.flatten_cons, Recomputed.decode_append]
      cases hrun : decode net out s with
      | error e s' =>
          rw [hchunk.of_error hrun]
          rfl
      | ok u s' =>
          have hstate := hchunk.of_ok hrun
          rw [hstate]
          exact ih (.inr (Recomputed.prediction_decode hstate))

/-- However frames are cut into chunks, at least one of them, greedy search ends in the state of one
loop over all frames that asks for the prediction at each of them. Rows that the search starts with
stand for the prediction until a token is emitted. Networks that always answer let the search go
through. -/
theorem decodeChunks_recomputed (hnet : net.Functional f g) {outs : List (Argument S)}
    {chunks : List (List (List S))} (houts : Beam.Chunks outs chunks) (hne : outs ≠ [])
    (network : σ) (begin : State S) :
    Beam.reached (decodeChunks net outs ⟨network, begin⟩) =
        Recomputed.decode net f g chunks.flatten begin ∧
      (Total f g → (∀ rows ∈ begin.prediction, rows.length = 1) →
        (∀ token ∈ begin.tokens, Number.fitsWord token = true) →
        ∃ st, Recomputed.decode net f g chunks.flatten begin = .ok st) := by
  refine ⟨reached_decodeChunks hnet houts (.inl hne), fun hfg hkept htokens => ?_⟩
  obtain ⟨p, hfollow⟩ : ∃ p, Recomputed.follow net f g begin.prediction begin.frameOffset
      chunks.flatten begin = .ok p := exists_follow hfg hkept htokens
  rw [Recomputed.decode, hfollow]
  exact ⟨_, rfl⟩

theorem decodeChunks_recomputed_kept :
    let net := addingNetwork Float.ofInt 4
    let f (rows : List (List Int)) : Except Fault (List (List Float)) :=
      .ok (rows.map (·.map Float.ofInt))
    let g (frame : List Float) (rows : List (List Float)) : Except Fault (List (List Float)) :=
      .ok (rowByRow (addedRow 4) frame rows)
    let begin : State Float := { start net with prediction := some [[0, 0, 0, 5]] }
    let outs : List (Argument Float) :=
      [.array { shape := [1, 1, 4], data := #[6, 0, 0, 0] },
        .array { shape := [1, 0, 4], data := #[] },
        .array { shape := [1, 2, 4], data := #[2, 0, 0, 1, 0, 0, 4, 4] }]
    let frames : List (List Float) := [[6, 0, 0, 0], [2, 0, 0, 1], [0, 0, 4, 4]]
    ∃ st, Beam.reached (decodeChunks net outs ⟨(), begin⟩) = .ok st ∧
      Recomputed.decode net f g frames begin = .ok st := by
  intro net f g begin outs frames
  have houts : Beam.Chunks outs [[[6, 0, 0, 0]], [], [[2, 0, 0, 1], [0, 0, 4, 4]]] :=
    .cons rfl (.cons rfl (.cons rfl .nil))
  have hnet : net.Functional f g := {
    predict := fun _ _ => rfl
    join := fun _ _ _ => rfl }
  have hfg : Total f g := {
    predict := fun _ => ⟨_, rfl⟩
    join := fun _ _ => ⟨_, rfl, by simp [addedRow]⟩ }
  obtain ⟨hwhole, hruns⟩ := decodeChunks_recomputed hnet houts (List.cons_ne_nil _ _) () begin
  obtain ⟨st, hst⟩ := hruns hfg (by simp [begin]) (by decide)
  exact ⟨st, hwhole.trans hst, hst⟩

end Greedy

end SpeechTransducer.Search
