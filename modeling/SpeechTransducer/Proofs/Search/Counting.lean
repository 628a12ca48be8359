import SpeechTransducer.Proofs.Search.Interrupted
import SpeechTransducer.Proofs.Search.InStep

/-!
What both methods count. Greedy search keeps its one path in step with the frames, as beam search
keeps all of its paths. By either method, the silence that a search tells of is shorter than what it
has decoded if and only if its best path has emitted a token.
-/

namespace SpeechTransducer

/-- What is left of a list without its first entries, where a negative count keeps the last. -/
theorem sliceFrom_ne_nil_iff {α : Type} {i : Int} {xs ys : List α}
    (hlen : xs.length = i.toNat) :
    sliceFrom i (xs ++ ys) ≠ [] ↔ ys ≠ [] := by
  by_cases hneg : i < 0
  · obtain rfl : xs = [] := List.length_eq_zero_iff.mp (by omega)
    rw [sliceFrom, resolvePosition, if_pos hneg, List.nil_append, ne_eq, ne_eq,
      List.drop_eq_nil_iff, ← List.length_eq_zero_iff]
    omega
  · obtain ⟨n, rfl⟩ := Int.eq_ofNat_of_zero_le (Int.not_lt.mp hneg)
    rw [Int.toNat_natCast] at hlen
    rw [sliceFrom_natCast, List.drop_left' hlen]

namespace Search

variable {σ S : Type} {net : Network σ S}

theorem Beam.InStep.trailingBlanks_lt_iff {frames : Int} {h : Hypothesis S}
    (hstep : InStep net frames h) :
    h.trailingBlanks < frames ↔ sliceFrom net.contextSize h.tokens ≠ [] := by
  obtain ⟨emitted, htokens, -⟩ := hstep.tokens
  have hlength := hstep.length
  rw [htokens, List.length_append, List.length_replicate] at hlength
  rw [htokens, sliceFrom_ne_nil_iff List.length_replicate, hstep.trailingBlanks, ne_eq,
    ← List.length_eq_zero_iff]
  cases hlast : h.timestamps.getLast? with
  | none =>
      rw [List.getLast?_eq_none_iff.mp hlast, List.length_nil] at hlength
      dsimp only
      omega
  | some last =>
      have hmem := List.mem_of_getLast? hlast
      have hpos := List.length_pos_of_mem hmem
      have hbounds := hstep.bounds last hmem
      dsimp only
      omega

namespace Greedy

variable {t : Int} {n : Nat} {st st' : State S}

/-- What greedy search tells, as a path. -/
def path [Zero S] (st : State S) : Hypothesis S where
  tokens := st.tokens
  score := 0
  timestamps := st.timestamps
  trailingBlanks := st.trailingBlanks

variable [Zero S] [Add S] [Sub S] [BEq S]

/-- A frame extends the path, as it extends the paths of a beam. -/
theorem Steps.inStep (hstep : Steps t st st') (ht : 0 ≤ t) (h : Beam.InStep net t (path st)) :
    Beam.InStep net (t + 1) (path st') := by
  -- Scores do not matter for being in step, so the path may be taken to score zero.
  have hextended (token : Int) (score : S)
      (hextend : Beam.extend none t (path st) token 0 = .ok { path st' with score }) :
      Beam.InStep net (t + 1) (path st') := by
    have hnext := h.extend ht hextend
    exact ⟨hnext.tokens, hnext.length, hnext.increasing, hnext.bounds, hnext.trailingBlanks⟩
  obtain ⟨token, hemission, rfl⟩ | rfl := hstep
  · exact hextended token (0 + 0) (by rw [Beam.extend, if_pos hemission]; rfl)
  · exact hextended blankToken (0 + 0) rfl

theorem Passes.inStep (hpasses : Passes t n st st') (ht : 0 ≤ t)
    (h : Beam.InStep net t (path st)) : Beam.InStep net (t + n) (path st') := by
  induction hpasses with
  | refl t st => rwa [Int.natCast_zero, Int.add_zero]
  | @step t n st mid st' hstep _ ih =>
      have hcount : t + ((n + 1 : Nat) : Int) = t + 1 + n := by omega
      rw [hcount]
      exact ih (by omega) (hstep.inStep ht h)

end Greedy

variable [Zero S] [BEq S] [LT S] [DecidableLT S] {m : Method}

/-- A search between two chunks, whose best path is in step with the frames. -/
def Method.InStep (m : Method) (net : Network σ S) (st : State S) : Prop :=
  match m with
  | .greedy => 0 ≤ st.frameOffset ∧ Beam.InStep net st.frameOffset (Greedy.path st)
  | .beam b => (∃ n : Nat, Beam.Abreast net b n st) ∧ ∀ rows ∈ st.prediction, rows.length = 1

/-- Beams with at least one place, over networks that give a row for each row. -/
def Method.Steady (m : Method) (net : Network σ S) : Prop :=
  match m with
  | .greedy => True
  | .beam b => 1 ≤ b.width ∧ net.Shaped

/-- The prediction rows of a search may be handed on to a search that is in step. -/
theorem Method.InStep.hand {st fresh : State S} (h : m.InStep net st)
    (hfresh : m.InStep net fresh) : m.InStep net { fresh with prediction := st.prediction } := by
  cases m with
  | greedy => exact hfresh
  | beam b =>
      obtain ⟨⟨n, habreast⟩, -⟩ := hfresh
      exact ⟨⟨n, habreast.frameOffset, habreast.paths⟩, h.2⟩

/-- The silence at the end is shorter than all that has been decoded if and only if there is a
token. -/
theorem Method.InStep.trailingBlanks_lt_iff {st : State S} (h : m.InStep net st) :
    st.trailingBlanks < st.frameOffset ↔ (m.strip net st).tokens ≠ [] := by
  cases m with
  | greedy => exact h.2.trailingBlanks_lt_iff
  | beam b =>
      obtain ⟨⟨n, hoffset, hs, hhyps, hsurviving, best, hbest, -, -, htrailing⟩, -⟩ := h
      have hsome : hs.best? = some best := by
        rw [Hypotheses.best] at hbest
        split at hbest
        · rename_i first hfirst
          rw [hfirst, Except.ok.inj hbest]
        · cases hbest
      have hstrip : (Beam.strip net st).tokens = sliceFrom net.contextSize best.tokens := by
        rw [Beam.strip, hhyps, Option.bind_some, hsome]
      rw [hoffset, htrailing, strip, hstrip]
      exact (hsurviving.inStep best (Beam.mem_of_best? hsome)).trailingBlanks_lt_iff

variable [Add S] [Sub S] [LogScale S] {graph : Option (Hotword.Graph S)} {s : Session σ S}

theorem Method.inStep_start (hm : m.Steady net) (bound : Option (Hotword.Graph S)) :
    m.InStep net ((m.start net).atRoot bound) ∧
      ((m.start net).atRoot bound).frameOffset = 0 := by
  cases m with
  | greedy =>
      have hblanks : Beam.InStep net 0 (Greedy.path (Greedy.start net : State S)) := .blanks 0 none
      cases bound with
      | none => exact ⟨⟨le_rfl, hblanks⟩, rfl⟩
      | some g => exact ⟨⟨le_rfl, hblanks⟩, rfl⟩
  | beam b =>
      have hstart : Beam.Abreast net b 0 ((Beam.start net b).atRoot bound) :=
        Beam.abreast_start hm.1 bound
      refine ⟨⟨⟨0, hstart⟩, ?_⟩, hstart.frameOffset⟩
      cases bound with
      | none => exact fun rows hrows => by cases hrows
      | some g => exact fun rows hrows => by cases hrows

theorem Method.decode_inStep (hm : m.Steady net) {out : Argument S} {frames : List (List S)}
    (hframes : encoderFrames out = .ok frames) (h : m.InStep net s.state) :
    Leaves (m.decode net graph out) s
      (fun _ s' => m.InStep net s'.state ∧
        s'.state.frameOffset = s.state.frameOffset + frames.length)
      fun _ _ => True := by
  cases m with
  | greedy =>
      refine (Greedy.decode_passes hframes).mono ?_ fun _ _ _ => trivial
      rintro _ s' ⟨passed, rows, hpasses, hstate⟩
      have hpos := h.1
      have hnext := hpasses.inStep h.1 h.2
      rw [hstate]
      exact ⟨⟨by dsimp only; omega, hnext⟩, rfl⟩
  | beam b =>
      obtain ⟨⟨n, habreast⟩, hkept⟩ := h
      refine (Beam.decode_abreast hm.2 hm.1 hframes habreast hkept).mono ?_ fun _ _ _ => trivial
      rintro _ s' ⟨hnext, hkept'⟩
      refine ⟨⟨⟨n + frames.length, hnext⟩, hkept'⟩, ?_⟩
      rw [hnext.frameOffset, habreast.frameOffset, Int.natCast_add]

end Search

end SpeechTransducer
