import SpeechTransducer.Proofs.Audio.Resampling

/-!
When a resampler has something to convert. That is decided by the number of samples fed so far, and
a converter that refuses to convert does so from then on. The samples are kept all the same, so
every piece brings the refusal nearer.
-/

namespace SpeechTransducer.Audio

variable {S : Type}

namespace Resampler

variable {r : Resampler S} {samples : List S} {f : Fault}

/-- The position up to which samples have to be fed before there is more to convert. -/
def due (r : Resampler S) : Int :=
  r.converter.context + (r.position / r.converter.inBlock + 1) * r.converter.inBlock

theorem lt_reach_iff (hpos : 0 < r.converter.inBlock) : r.position < r.reach ↔ r.due ≤ r.fed := by
  have hblock : (0 : Int) < r.converter.inBlock := Int.natCast_pos.mpr hpos
  rw [reach, ← Int.ediv_lt_iff_lt_mul hblock, ← Int.add_one_le_iff, Int.le_ediv_iff_mul_le hblock,
    due]
  omega

theorem position_lt_due (hpos : 0 < r.converter.inBlock) : r.position < r.due := by
  have hblock : (0 : Int) < r.converter.inBlock := Int.natCast_pos.mpr hpos
  have hlt := Int.lt_ediv_add_one_mul_self r.position hblock
  rw [due]
  omega

theorem fed_push (r : Resampler S) (samples : List S) :
    (r.push samples).fed = r.fed + samples.length := by
  rw [fed, fed, push, List.length_append]
  push_cast
  omega

theorem due_push (r : Resampler S) (samples : List S) : (r.push samples).due = r.due := rfl

theorem lt_reach_push (samples : List S) (hpos : 0 < r.converter.inBlock) :
    (r.push samples).position < (r.push samples).reach ↔ r.due ≤ r.fed + samples.length := by
  rw [← fed_push, ← due_push r samples]
  exact lt_reach_iff hpos

theorem fed_run {segmentEnd stop : Int} (hstop : stop - r.converter.context ≤ r.fed) :
    (r.run segmentEnd stop).2.fed = r.fed := by
  have hstart : r.bufferStart ≤ r.fed := by
    rw [fed]
    omega
  have hkeep : max r.bufferStart (stop - r.converter.context) - r.bufferStart =
      ((max r.bufferStart (stop - r.converter.context) - r.bufferStart).toNat : Int) := by
    omega
  rw [fed] at hstop hstart
  simp only [run, fed]
  rw [hkeep, sliceFrom_natCast, List.length_drop]
  omega

/-- After samples have been fed, all that can be converted is. -/
theorem fed_feed_lt_due (hpos : 0 < r.converter.inBlock) :
    (r.feed samples).2.fed < (r.feed samples).2.due := by
  rw [feed]
  generalize hr : r.push samples = pushed
  have hblock : (0 : Int) < pushed.converter.inBlock := by
    rw [← hr]
    exact Int.natCast_pos.mpr hpos
  rw [advance]
  split
  · rename_i hle
    exact Int.not_le.mp ((lt_reach_iff (Int.natCast_pos.mp hblock)).not.mp (Int.not_lt.mpr hle))
  · have hreach : pushed.reach / pushed.converter.inBlock =
        (pushed.fed - pushed.converter.context) / pushed.converter.inBlock :=
      Int.mul_ediv_cancel _ hblock.ne'
    have hle : pushed.reach ≤ pushed.fed - pushed.converter.context :=
      Int.ediv_mul_le _ hblock.ne'
    have hlt := Int.lt_ediv_add_one_mul_self (pushed.fed - pushed.converter.context) hblock
    rw [fed_run (by omega), due]
    simp only [run]
    rw [hreach]
    omega

theorem tryFeed_of_refusal (hpos : 0 < r.converter.inBlock)
    (hrefusal : r.converter.refusal = some f) (samples : List S) :
    r.tryFeed samples =
      if r.due ≤ r.fed + samples.length then .error f (r.push samples)
      else .ok [] (r.push samples) := by
  have hpush : (r.push samples).converter.refusal = some f := hrefusal
  have hreach := lt_reach_push samples hpos
  rw [tryFeed, unlessRefused, hpush]
  dsimp only
  by_cases hdue : r.due ≤ r.fed + samples.length
  · rw [if_pos hdue, if_neg (Int.not_le.mpr (hreach.mpr hdue))]
  · rw [if_neg hdue, if_pos (Int.not_lt.mp (hreach.not.mpr hdue))]

/-- Nothing is given out for nothing, if all that can be converted is. -/
theorem feed_nil (hpos : 0 < r.converter.inBlock) (hdue : r.fed < r.due) :
    (r.feed []).1 = [] := by
  have hle : (r.push []).reach ≤ (r.push []).position := by
    rw [← Int.not_lt, lt_reach_push [] hpos, List.length_nil]
    omega
  rw [feed, advance, if_pos hle]

theorem flush_converter : r.flush.2.converter = r.converter := by
  rw [flush]
  split
  · rfl
  · rfl

/-- What is held back is given out, or the converter refuses to convert it. -/
theorem tryFlush_cases (r : Resampler S) :
    (∃ held r', (r.converter.refusal = none ∨ r.fed ≤ r.position) ∧ r.tryFlush = .ok held r' ∧
      r'.converter = r.converter) ∨
    ∃ f, r.converter.refusal = some f ∧ r.position < r.fed ∧ r.tryFlush = .error f r := by
  cases hrefusal : r.converter.refusal with
  | none => exact .inl ⟨_, _, .inl rfl, tryFlush_eq hrefusal, flush_converter⟩
  | some f =>
      rw [tryFlush, unlessRefused, hrefusal]
      dsimp only
      by_cases hfed : r.fed ≤ r.position
      · exact .inl ⟨[], r, .inr hfed, if_pos hfed, rfl⟩
      · exact .inr ⟨f, rfl, Int.not_le.mp hfed, if_neg hfed⟩

end Resampler

end SpeechTransducer.Audio
