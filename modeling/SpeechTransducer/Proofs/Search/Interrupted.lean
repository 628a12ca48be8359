import SpeechTransducer.Proofs.Search.Frames
import SpeechTransducer.Proofs.Search.Greedy
import SpeechTransducer.Search.Method

/-!
What a chunk leaves of a search when it fails. Greedy search writes down every frame as it goes, so
the frames before the failure stay, and the frame at which it failed may have emitted its token.
Beam search writes down nothing until it is through with all frames; it may have used up the rows
that were kept for the first one, and if the last prediction fails, then the paths are new already
and the frames are counted.
-/

namespace SpeechTransducer.Search

variable {σ S : Type} {net : Network σ S}

namespace Greedy

/-- What one frame can make of a state. -/
def Steps (t : Int) (st st' : State S) : Prop :=
  (∃ token, isEmission token = true ∧ st' = st.emit token t) ∨ st' = st.rest

/-- What frames can make of a state, so many of them from the one with number `t` on. -/
inductive Passes : Int → Nat → State S → State S → Prop
  | refl (t : Int) (st : State S) : Passes t 0 st st
  | step {t : Int} {n : Nat} {st mid st' : State S} :
      Steps t st mid → Passes (t + 1) n mid st' → Passes t (n + 1) st st'

variable {t : Int} {n : Nat} {st st' : State S} {s : Session σ S}

/-- Frames do not change what is only noted between chunks. -/
theorem Passes.frame (h : Passes t n st st') :
    st'.frameOffset = st.frameOffset ∧ st'.hyps = st.hyps ∧ st'.prediction = st.prediction := by
  induction h with
  | refl t st => exact ⟨rfl, rfl, rfl⟩
  | step hstep _ ih =>
      obtain ⟨token, -, rfl⟩ | rfl := hstep
      · exact ih
      · exact ih

variable [BEq S] [LT S] [DecidableLT S]

theorem decodeFrame_steps (t : Int) (frame : List S) (prediction : List (List S)) :
    Leaves (decodeFrame net t frame prediction) s (fun _ s' => Steps t s.state s'.state)
      fun _ s' => s'.state = s.state ∨ Steps t s.state s'.state := by
  refine .bind_ask .trivial (fun logits network _ => ?_) fun _ _ _ => .inl rfl
  refine .bind_answered (fun token _ => ?_) fun _ _ => .inl rfl
  split
  · rename_i hemission
    have hstep : Steps t s.state (s.state.emit token t) := .inl ⟨token, hemission, rfl⟩
    exact .bind_change (.bind_look (.ask .trivial (fun _ _ _ => hstep) fun _ _ _ => .inr hstep))
  · exact .bind_change (.pure (.inr rfl))

theorem decodeFrames_passes (t : Int) (frames : List (List S)) (prediction : List (List S)) :
    Leaves (decodeFrames net t frames prediction) s
      (fun _ s' => Passes t frames.length s.state s'.state)
      fun _ s' => ∃ k ≤ frames.length, Passes t k s.state s'.state := by
  induction frames generalizing t prediction s with
  | nil => exact .pure (.refl t s.state)
  | cons frame frames ih =>
      refine .bind ((decodeFrame_steps t frame prediction).mono (fun _ _ h => h) ?_) ?_
      · rintro _ s' (hsame | hstep)
        · exact ⟨0, Nat.zero_le _, hsame ▸ .refl t s.state⟩
        · exact ⟨1, Nat.succ_le_succ (Nat.zero_le _), .step hstep (.refl _ _)⟩
      · intro rows s' hstep
        refine (ih (t + 1) rows).mono (fun _ _ h => .step hstep h) ?_
        rintro _ s'' ⟨k, hk, h⟩
        exact ⟨k + 1, Nat.succ_le_succ hk, .step hstep h⟩

/-- A chunk passes all of its frames, and then counts them and keeps its prediction rows. If it
fails, it may have passed some of its frames. -/
theorem decode_passes {out : Argument S} {frames : List (List S)}
    (hframes : encoderFrames out = .ok frames) :
    Leaves (decode net out) s
      (fun _ s' => ∃ passed rows, Passes s.state.frameOffset frames.length s.state passed ∧
        s'.state =
          { passed with
            frameOffset := s.state.frameOffset + frames.length
            prediction := some rows })
      fun _ s' => ∃ k ≤ frames.length, Passes s.state.frameOffset k s.state s'.state := by
  refine decode_leaves (P := fun _ => True) (Q := fun _ => True) hframes (fun _ _ => trivial)
    (fun _ => .trivial) (fun _ _ _ => ⟨0, Nat.zero_le _, .refl _ _⟩) fun rows network _ => ?_
  refine (decodeFrames_passes _ frames rows).mono (fun rows' s' hpassed => ?_) fun _ _ h => h
  refine ⟨s'.state, rows', hpassed, ?_⟩
  rw [hpassed.frame.1]

end Greedy

namespace Beam

variable [Zero S] [Add S] [Sub S] [BEq S] [LT S] [DecidableLT S] [LogScale S]
variable {b : Settings} {graph : Option (Hotword.Graph S)} {s : Session σ S}

/-- The state that a failed chunk of `n` frames leaves. -/
def Interrupted (n : Nat) (st st' : State S) : Prop :=
  Consumed st st' ∨ ∃ mid hs, Consumed st mid ∧
    st' = { mid with frameOffset := st.frameOffset + n, hyps := some hs }

theorem decodeFrames_consumed (isFirst : Bool) (t : Int) (frames : List (List S))
    (hs : Hypotheses S) :
    Leaves (decodeFrames net b graph isFirst t frames hs) s
      (fun _ s' => True ∧ Consumed s.state s'.state)
      fun _ s' => True ∧ Consumed s.state s'.state := by
  refine decodeFrames_leaves (I := fun _ _ => True) (fun _ _ _ _ _ => trivial) ?_ trivial
  intro isFirst t frame hs s' _ _
  exact (decodeFrame_consumed isFirst t frame _).mono (fun _ _ h => ⟨trivial, h.2⟩) fun _ _ h => h

theorem decode_interrupted {out : Argument S} {frames : List (List S)}
    (hframes : encoderFrames out = .ok frames) :
    Leaves (decode net b graph out) s (fun _ _ => True)
      fun _ s' => Interrupted frames.length s.state s'.state := by
  refine .bind_answered (fun frames' hframes' => ?_) fun e he => by rw [hframes] at he; cases he
  obtain rfl := Except.ok.inj (hframes.symm.trans hframes')
  refine .bind_look ?_
  dsimp only [id]
  split
  · exact .inl (.refl _)
  · split
    · exact .pure trivial
    · refine .bind ((decodeFrames_consumed true _ frames _).mono (fun _ _ h => h.2)
        fun _ _ h => .inl h.2) fun hs s' hconsumed => ?_
      refine .bind_change ?_
      split
      · exact .pure trivial
      · refine .bind_change (.bind_ask .trivial (fun _ _ _ => .change trivial) fun _ _ _ => ?_)
        exact .inr ⟨s'.state, hs, hconsumed, by rw [hconsumed.frameOffset]⟩

end Beam

/-- The state that a failed chunk of `n` frames leaves, by either method. -/
def Method.Interrupted (m : Method) (n : Nat) (st st' : State S) : Prop :=
  match m with
  | .greedy => ∃ k ≤ n, Greedy.Passes st.frameOffset k st st'
  | .beam _ => Beam.Interrupted n st st'

variable [Zero S] [Add S] [Sub S] [BEq S] [LT S] [DecidableLT S] [LogScale S]
variable {graph : Option (Hotword.Graph S)} {s : Session σ S} {out : Argument S}

/-- An encoder output that holds no frames changes nothing. -/
theorem Method.decode_of_error (m : Method) {e : Fault} (h : encoderFrames out = .error e) :
    m.decode net graph out s = .error e s := by
  cases m with
  | greedy =>
      rw [decode, Greedy.decode, h]
      rfl
  | beam b =>
      rw [decode, Beam.decode, h]
      rfl

theorem Method.decode_interrupted (m : Method) {frames : List (List S)}
    (hframes : encoderFrames out = .ok frames) :
    Leaves (m.decode net graph out) s (fun _ _ => True)
      fun _ s' => m.Interrupted frames.length s.state s'.state := by
  cases m with
  | greedy => exact (Greedy.decode_passes hframes).mono (fun _ _ _ => trivial) fun _ _ h => h
  | beam b => exact Beam.decode_interrupted hframes

end SpeechTransducer.Search
