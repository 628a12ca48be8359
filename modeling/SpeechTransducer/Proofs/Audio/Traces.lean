import SpeechTransducer.Proofs.Audio.Jammed

/-!
Which failed calls with audio leave a trace. What the checks turn away leaves none. After them the
rate is stored before anything else is tried, and samples are stored before it is known whether they
can be converted and made into frames.
-/

namespace SpeechTransducer.Audio.Extractor

variable {S : Type} {fe : FrontEnd S} {rate : Int} {r : Resampler S} {samples : List S}
variable {x y : Extractor S} {f g : Fault}

/-- Audio at the rate of a stream that fails leaves it jammed, unless it fails because no frame can
be made, and only more of it will be refused by the converter. -/
theorem acceptChecked_error_inv (hfe : fe.ReadsBlocks) (hroute : Route fe x)
    (hopen : x.finished = false) (hrate : x.rate = some rate)
    (h : (acceptChecked fe rate samples x).2 = .error f y) :
    Jammed fe rate f y ∨ ∃ r g, x.resampler = some r ∧ rate ≠ fe.rate ∧
      r.converter.refusal = some g ∧ 0 < r.converter.inBlock ∧ Stalled fe f x.pending ∧
      r.fed + samples.length < r.due ∧ y = { x with resampler := some (r.push samples) } := by
  cases hroute with
  | unset hnone _ => cases hrate.symm.trans hnone
  | direct hown hresampler =>
      have hown : rate = fe.rate := Option.some.inj (hrate.symm.trans hown)
      rw [acceptChecked_direct hrate hown] at h
      obtain ⟨hstalled, rfl⟩ := compute_error_inv h
      exact .inl ⟨hopen, hrate, .direct hown hresampler hstalled⟩
  | barred was g hwas hne hresampler hconverter =>
      obtain rfl : rate = was := Option.some.inj (hrate.symm.trans hwas)
      rw [acceptChecked_barred hrate hne hresampler hconverter] at h
      cases h
      exact .inl ⟨hopen, hrate, .barred hne hresampler hconverter⟩
  | resampled was r hwas hne hresampler hconverter hdue =>
      obtain rfl : rate = was := Option.some.inj (hrate.symm.trans hwas)
      have hpos := hfe _ _ hconverter
      rw [acceptChecked_resampled hrate hne hresampler] at h
      cases hrefusal : r.converter.refusal with
      | none =>
          rw [computeThrough_of_converter hrefusal] at h
          obtain ⟨hstalled, rfl⟩ := compute_error_inv h
          refine .inl ⟨hopen, hrate, ?_⟩
          refine .resampled (r.feed samples).2 hne rfl ?_ (.inl ?_) (.inl hstalled)
          · rwa [Resampler.feed_converter]
          · rwa [Resampler.feed_converter]
      | some g =>
          rw [computeThrough_of_refusal hpos hrefusal] at h
          split at h
          · rename_i hreached
            cases h
            refine .inl ⟨hopen, hrate, ?_⟩
            refine .resampled (r.push samples) hne rfl hpos (.inr hrefusal) (.inr ⟨hrefusal, ?_⟩)
            rwa [Resampler.due_push, Resampler.fed_push]
          · rename_i hshort
            obtain ⟨hstalled, rfl⟩ := compute_error_inv h
            rw [List.append_nil] at hstalled
            exact .inr ⟨r, g, hresampler, hne, hrefusal, hpos, hstalled, Int.not_le.mp hshort, by
              simp⟩

section

variable [Zero S]

/-- If all audio at the rate of a stream fails with one fault, there is an obstacle to it. -/
theorem jammed_of_fails (hfe : fe.ReadsBlocks) (hroute : Route fe x) (hopen : x.finished = false)
    (hrate : x.rate = some rate)
    (h : ∀ more, ∃ y, (acceptChecked fe rate more x).2 = .error f y) : Jammed fe rate f x := by
  refine ⟨hopen, hrate, ?_⟩
  obtain ⟨y, hnil⟩ := h []
  cases hroute with
  | unset hnone _ => cases hrate.symm.trans hnone
  | direct hown hresampler =>
      have hown : rate = fe.rate := Option.some.inj (hrate.symm.trans hown)
      rw [acceptChecked_direct hrate hown] at hnil
      obtain ⟨hstalled, -⟩ := compute_error_inv hnil
      rw [List.append_nil] at hstalled
      exact .direct hown hresampler hstalled
  | barred was g hwas hne hresampler hconverter =>
      obtain rfl : rate = was := Option.some.inj (hrate.symm.trans hwas)
      rw [acceptChecked_barred hrate hne hresampler hconverter] at hnil
      cases hnil
      exact .barred hne hresampler hconverter
  | resampled was r hwas hne hresampler hconverter hdue =>
      obtain rfl : rate = was := Option.some.inj (hrate.symm.trans hwas)
      have hpos := hfe _ _ hconverter
      rw [acceptChecked_resampled hrate hne hresampler] at hnil
      cases hrefusal : r.converter.refusal with
      | none =>
          rw [computeThrough_of_converter hrefusal] at hnil
          obtain ⟨hstalled, -⟩ := compute_error_inv hnil
          have hwindow : fe.window ≤ x.pending.length := by
            obtain hclosed | hrefused | hdue | hwindow := hdue
            · cases hopen.symm.trans hclosed
            · exact absurd hrefusal hrefused
            · rw [Resampler.feed_nil hpos hdue, List.append_nil] at hstalled
              exact hstalled.window
            · exact hwindow
          exact .resampled r hne hresampler hpos (.inl hrefusal) (.inl ⟨hstalled.unable, hwindow⟩)
      | some g =>
          -- Enough audio is refused, so that is how all audio fails.
          obtain ⟨z, hmany⟩ := h (List.replicate (r.due - r.fed).toNat 0)
          rw [acceptChecked_resampled hrate hne hresampler, computeThrough_of_refusal hpos hrefusal,
            List.length_replicate, if_pos (by omega)] at hmany
          cases hmany
          refine .resampled r hne hresampler hpos (.inr hrefusal) ?_
          rw [computeThrough_of_refusal hpos hrefusal] at hnil
          split at hnil
          · rename_i hdue
            refine .inr ⟨hrefusal, ?_⟩
            rwa [List.length_nil, Int.natCast_zero, Int.add_zero] at hdue
          · obtain ⟨hstalled, -⟩ := compute_error_inv hnil
            rw [List.append_nil] at hstalled
            exact .inl hstalled

/-- The first audio that passes the checks always leaves a trace when it fails: audio at any other
rate is refused after it. -/
theorem not_sameAnswers_of_first (hopen : x.finished = false) (hrate : x.rate = none)
    (h : (acceptChecked fe rate samples x).2 = .error f y) : ¬SameAnswers fe y x := by
  intro hsame
  obtain ⟨hyrate, hyopen⟩ := acceptChecked_keeps fe rate samples x
  rw [h] at hyrate hyopen
  have hyopen : y.finished = false := hyopen.trans hopen
  -- Two calls at two more rates: the second fails in either state, for different rates.
  obtain ⟨hzrate, hzopen⟩ := acceptChecked_keeps fe (rate + 1) [] x
  have hfirst : (Use.accept (rate + 1) (asArray [])).perform fe x =
      answered (acceptChecked fe (rate + 1) [] x).2 := by
    rw [Use.perform, accept_eq, vetted_unset hopen hrate]
  have hsecond := (hsame.after (.accept (rate + 1) (asArray []))).answer
    (.accept (rate + 2) (asArray []))
  rw [hfirst, perform_changed hyopen hyrate (by omega), perform_changed hyopen hyrate (by omega),
    perform_changed (hzopen.trans hopen) hzrate (by omega)] at hsecond
  have hrates := Fault.rateChanged.inj (Except.error.inj hsecond)
  omega

section

variable (hopen : x.finished = false) (hrate : x.rate = some rate) (hne : rate ≠ fe.rate)
variable (hresampler : x.resampler = some r) (hpos : 0 < r.converter.inBlock)
variable (hrefusal : r.converter.refusal = some g)
include hopen hrate hne hresampler hpos hrefusal

theorem answer_refused (hdue : r.due ≤ r.fed + samples.length) :
    ((Use.accept rate (asArray samples)).perform fe x).1 = .error g := by
  rw [perform_again hopen hrate, acceptChecked_resampled hrate hne hresampler,
    computeThrough_of_refusal hpos hrefusal, if_pos hdue]
  rfl

theorem answer_stalled (hdue : r.fed + samples.length < r.due) (hstalled : Stalled fe f x.pending) :
    ((Use.accept rate (asArray samples)).perform fe x).1 = .error f := by
  rw [perform_again hopen hrate, acceptChecked_resampled hrate hne hresampler,
    computeThrough_of_refusal hpos hrefusal, if_neg (Int.not_le.mpr hdue),
    compute_of_stalled (x := { x with resampler := some (r.push samples) }) (hstalled.append [])]
  rfl

/-- Samples that were kept count when more follow, so that a converter refuses sooner. -/
theorem refusal_eq_of_sameAnswers (hstalled : Stalled fe f x.pending) (hkept : samples ≠ [])
    (hdue : r.fed + samples.length < r.due)
    (h : SameAnswers fe { x with resampler := some (r.push samples) } x) : g = f := by
  have hlength := List.length_pos_iff.mpr hkept
  -- So much audio is too much after the samples that were kept, but not without them.
  let more : List S := List.replicate (r.due - r.fed - samples.length).toNat 0
  have hmore : (more.length : Int) = r.due - r.fed - samples.length := by
    rw [List.length_replicate]
    omega
  have hreached : (r.push samples).due ≤ (r.push samples).fed + more.length := by
    rw [Resampler.due_push, Resampler.fed_push]
    omega
  have hshort : r.fed + more.length < r.due := by omega
  have hafter := answer_refused (x := { x with resampler := some (r.push samples) })
    (r := r.push samples) hopen hrate hne rfl hpos hrefusal hreached
  have hwithout := answer_stalled hopen hrate hne hresampler hpos hrefusal hshort hstalled
  exact Except.error.inj (hafter.symm.trans ((h.answer _).trans hwithout))

end

/-- If nothing tells that audio was fed and failed, then nothing has changed, or all audio fails. -/
theorem eq_or_jammed_of_sameAnswers (hfe : fe.ReadsBlocks) (hroute : Route fe x)
    (hopen : x.finished = false) (hrate : x.rate = some rate)
    (h : (acceptChecked fe rate samples x).2 = .error f y) (hsame : SameAnswers fe y x) :
    y = x ∨ Jammed fe rate f x := by
  obtain hjammed | ⟨r, g, hresampler, hne, hrefusal, hpos, hstalled, hdue, rfl⟩ :=
    acceptChecked_error_inv hfe hroute hopen hrate h
  · refine .inr (jammed_of_fails hfe hroute hopen hrate fun more => ?_)
    obtain ⟨y', hy', -, -⟩ := hjammed.acceptChecked more
    have hanswer := hsame.answer (.accept rate (asArray more))
    rw [perform_again hjammed.isOpen hjammed.atRate, perform_again hopen hrate, hy'] at hanswer
    exact error_of_answered hanswer.symm
  · by_cases hkept : samples = []
    · have hpush : r.push samples = r := by simp [Resampler.push, hkept]
      exact .inl (by rw [hpush, ← hresampler])
    · obtain rfl : g = f := refusal_eq_of_sameAnswers hopen hrate hne hresampler hpos hrefusal
        hstalled hkept hdue hsame
      exact .inr ⟨hopen, hrate, .resampled r hne hresampler hpos (.inr hrefusal) (.inl hstalled)⟩

/-- A failed call with audio leaves no trace exactly if the audio was turned away, or the stream had
its rate already and either nothing has changed, or all audio at that rate fails like this. -/
theorem accept_failed_sameAnswers_iff (hfe : fe.ReadsBlocks) (hx : Reached fe x) (rate : Int)
    (samples : Argument S) (h : (accept fe rate samples x).2 = .error f y) :
    SameAnswers fe y x ↔ TurnedAway x rate samples ∨ x.rate = some rate ∧
      (y = x ∨ ∀ more, ∃ z, (accept fe rate (asArray more) x).2 = .error f z) := by
  have hroute := hx.route hfe
  rw [accept_eq] at h
  obtain ⟨haway, f', hvetted⟩ | ⟨hpassed, hopen, hrate, s, hvetted⟩ := vetted_cases x rate samples
  · rw [hvetted] at h
    cases h
    exact ⟨fun _ => .inl haway, fun _ _ => rfl⟩
  · rw [hvetted] at h
    have haccept (more : List S) : (accept fe rate (asArray more) x).2 =
        (acceptChecked fe rate more x).2 := accept_asArray hopen hrate more
    simp only [haccept]
    constructor
    · intro hsame
      obtain hrate | hrate := hrate
      · exact absurd hsame (not_sameAnswers_of_first hopen hrate h)
      · refine .inr ⟨hrate, ?_⟩
        refine (eq_or_jammed_of_sameAnswers hfe hroute hopen hrate h hsame).imp_right ?_
        intro hjammed more
        obtain ⟨z, hz, -, -⟩ := hjammed.acceptChecked more
        exact ⟨z, hz⟩
    · intro hcases
      obtain ⟨hrate, rfl | hfails⟩ := hcases.resolve_left hpassed
      · exact fun _ => rfl
      · have hjammed := jammed_of_fails hfe hroute hopen hrate hfails
        obtain ⟨y', hy', hyjammed, hlike⟩ := hjammed.acceptChecked s
        cases h.symm.trans hy'
        exact sameAnswers_of_jammed hyjammed hjammed hlike

/-- With too few bands no window becomes a frame. All audio fails from the first window on, and the
calls that fail leave no trace after that. -/
theorem accept_failed_sameAnswers_iff_stalled :
    let c : FeatureConfig := { bins := 3 }
    let silence : Argument Float := asArray (List.replicate 400 0)
    let x := ((Use.accept 16000 silence).perform c.frontEnd {}).2
    ∃ y, Reached c.frontEnd x ∧
      (accept c.frontEnd 16000 silence x).2 = .error .filterbankSettings y ∧
      (SameAnswers c.frontEnd y x ↔ TurnedAway x 16000 silence ∨ x.rate = some 16000 ∧
        (y = x ∨ ∀ more, ∃ z,
          (accept c.frontEnd 16000 (asArray more) x).2 = .error .filterbankSettings z)) := by
  intro c silence x
  have hstalled : Stalled c.frontEnd .filterbankSettings (List.replicate 400 0) := by
    refine ⟨.inr ⟨by decide +kernel, if_neg fun h => absurd h.2.1 (by decide)⟩, ?_⟩
    rw [List.length_replicate]
    decide +kernel
  have hx : Reached c.frontEnd x := .step (.accept 16000 silence) .start
  have hfirst : (accept c.frontEnd 16000 silence {}).2 = .error .filterbankSettings _ :=
    (accept_ownRate rfl (.inl rfl) _).trans (compute_of_stalled hstalled)
  obtain ⟨y, hfail⟩ : ∃ y, (accept c.frontEnd 16000 silence x).2 =
      .error .filterbankSettings y := by
    have hstate : x = _ := congrArg (fun result => (answered result).2) hfirst
    rw [hstate]
    exact ⟨_, (accept_ownRate rfl (.inr rfl) _).trans (compute_of_stalled (hstalled.append _))⟩
  have hiff := accept_failed_sameAnswers_iff c.frontEnd_readsBlocks hx 16000 silence hfail
  exact ⟨y, hx, hfail, hiff⟩

/-- A rate of zero is refused, but it stays the rate of the stream. -/
theorem not_sameAnswers_zero_rate :
    let fe := FeatureConfig.frontEnd {}
    let silence : Argument Float := asArray (List.replicate 800 0)
    ∃ y, Reached fe {} ∧ (accept fe 0 silence {}).2 = .error .zeroRate y ∧
      answers fe {} [.accept 16000 silence, .ready] = [.ok .done, .ok (.count 3)] ∧
      answers fe y [.accept 16000 silence, .ready] =
        [.error (.rateChanged 0 16000), .ok (.count 0)] ∧
      ¬SameAnswers fe y {} := by
  intro fe silence
  have hfe : fe.Overlapping := ⟨by decide +kernel, by decide +kernel⟩
  have hcheck : fe.check = .ok () := by
    change FeatureConfig.check {} = .ok ()
    rw [FeatureConfig.check, if_pos ⟨by decide +kernel, by decide, by decide⟩, if_pos (by decide)]
  have haccept : (accept fe 16000 silence {}).2 =
      .ok () (taken fe (List.replicate 800 0) { rate := some 16000 }) :=
    (accept_ownRate rfl (.inl rfl) _).trans (compute_of_check _ hfe hcheck)
  have hready : (taken fe (List.replicate 800 0) { rate := some 16000 }).ready = 3 := by
    rw [ready, taken]
    simp only [List.nil_append, List.length_map, length_windows, List.length_replicate]
    decide +kernel
  have hbefore : answers fe {} [.accept 16000 silence, .ready] = [.ok .done, .ok (.count 3)] := by
    simp only [answers, Use.perform, haccept, answered, hready]
  have hafter : answers fe { rate := some 0 } [.accept 16000 silence, .ready] =
      [.error (.rateChanged 0 16000), .ok (.count 0)] := rfl
  refine ⟨{ rate := some 0 }, .start, rfl, hbefore, hafter, fun h => ?_⟩
  cases (hafter.symm.trans (h _)).trans hbefore

end

end SpeechTransducer.Audio.Extractor
