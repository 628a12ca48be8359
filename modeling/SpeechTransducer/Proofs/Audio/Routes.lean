import SpeechTransducer.Proofs.Audio.Answers
import SpeechTransducer.Proofs.Audio.Refusing

/-!
How the audio of a stream gets to the front end. The first audio settles it, also audio that fails,
and no call changes it after that.
-/

namespace SpeechTransducer.Audio

variable {S : Type}

/-- Why a front end makes no frames, once there is a complete window. -/
def FrontEnd.Unable (fe : FrontEnd S) (f : Fault) : Prop :=
  (fe.shift = 0 ∧ f = .zeroShift) ∨ (fe.shift ≠ 0 ∧ fe.check = .error f)

/-- Converters read at least one sample in a block. -/
def FrontEnd.ReadsBlocks (fe : FrontEnd S) : Prop :=
  ∀ rate c, fe.converter rate = .ok c → 0 < c.inBlock

theorem Sinc.Shape.inBlock_pos {s : Sinc.Shape} {c : Converter Float} (h : s.converter = .ok c) :
    0 < c.inBlock := by
  rw [Sinc.Shape.converter] at h
  split_ifs at h with hzero
  cases h
  exact Nat.pos_of_ne_zero (not_or.mp hzero).1

/-- Also a converter that refuses to convert reads its samples in blocks. -/
theorem FeatureConfig.frontEnd_readsBlocks (c : FeatureConfig) : c.frontEnd.ReadsBlocks := by
  intro rate k h
  change Sinc.converter rate c.rate = .ok k at h
  rw [Sinc.converter] at h
  dsimp only at h
  split_ifs at h
  · cases h
    exact Nat.one_pos
  · exact Sinc.Shape.inBlock_pos h

namespace Extractor

variable {fe : FrontEnd S} {rate : Int} {r : Resampler S} {samples : List S} {x y : Extractor S}
variable {f : Fault}

/-- A complete window that no frame can be made of. -/
structure Stalled (fe : FrontEnd S) (f : Fault) (pending : List S) : Prop where
  unable : fe.Unable f
  window : fe.window ≤ pending.length

theorem Stalled.append (h : Stalled fe f samples) (more : List S) :
    Stalled fe f (samples ++ more) := by
  refine ⟨h.unable, Int.le_trans h.window ?_⟩
  rw [List.length_append]
  omega

theorem compute_of_stalled (h : Stalled fe f (x.pending ++ samples)) :
    compute fe samples x = .error f { x with pending := x.pending ++ samples } := by
  have hlt : ¬((x.pending ++ samples).length : Int) < fe.window := Int.not_lt.mpr h.window
  rw [compute]
  dsimp only
  rw [if_neg hlt]
  obtain ⟨hshift, rfl⟩ | ⟨hshift, hcheck⟩ := h.unable
  · rw [if_pos hshift]
  · rw [if_neg hshift, hcheck]

/-- Samples are taken, or they complete a window that no frame can be made of. -/
theorem compute_cases (fe : FrontEnd S) (samples : List S) (x : Extractor S) :
    (∃ frames pending, compute fe samples x = .ok () { x with frames, pending }) ∨
    ∃ f, Stalled fe f (x.pending ++ samples) ∧
      compute fe samples x = .error f { x with pending := x.pending ++ samples } := by
  by_cases hlt : ((x.pending ++ samples).length : Int) < fe.window
  · refine .inl ⟨x.frames, x.pending ++ samples, ?_⟩
    rw [compute]
    exact if_pos hlt
  · have hwindow := Int.not_lt.mp hlt
    by_cases hshift : fe.shift = 0
    · have hstalled : Stalled fe .zeroShift (x.pending ++ samples) := ⟨.inl ⟨hshift, rfl⟩, hwindow⟩
      exact .inr ⟨_, hstalled, compute_of_stalled hstalled⟩
    · cases hcheck : fe.check with
      | error f =>
          have hstalled : Stalled fe f (x.pending ++ samples) := ⟨.inr ⟨hshift, hcheck⟩, hwindow⟩
          exact .inr ⟨f, hstalled, compute_of_stalled hstalled⟩
      | ok _ =>
          rw [compute]
          dsimp only
          rw [if_neg hlt, if_neg hshift, hcheck]
          exact .inl ⟨_, _, rfl⟩

theorem compute_error_inv (h : compute fe samples x = .error f y) :
    Stalled fe f (x.pending ++ samples) ∧ y = { x with pending := x.pending ++ samples } := by
  obtain ⟨frames, pending, hcompute⟩ | ⟨f', hstalled, hcompute⟩ := compute_cases fe samples x
  · cases h.symm.trans hcompute
  · cases h.symm.trans hcompute
    exact ⟨hstalled, rfl⟩

theorem computeThrough_of_converter (hrefusal : r.converter.refusal = none) :
    computeThrough fe r samples x =
      compute fe (r.feed samples).1 { x with resampler := some (r.feed samples).2 } := by
  rw [computeThrough, Resampler.tryFeed_eq hrefusal]

theorem computeThrough_of_refusal (hpos : 0 < r.converter.inBlock)
    (hrefusal : r.converter.refusal = some f) :
    computeThrough fe r samples x =
      if r.due ≤ r.fed + samples.length then
        .error f { x with resampler := some (r.push samples) }
      else compute fe [] { x with resampler := some (r.push samples) } := by
  rw [computeThrough, Resampler.tryFeed_of_refusal hpos hrefusal]
  split_ifs <;> rfl

/-- Whether or not samples are taken, only the frames and the samples to come change. -/
theorem answered_compute (fe : FrontEnd S) (samples : List S) (x : Extractor S) :
    ∃ frames pending, (answered (compute fe samples x)).2 = { x with frames, pending } := by
  obtain ⟨frames, pending, h⟩ | ⟨f, -, h⟩ := compute_cases fe samples x
  · rw [h]
    exact ⟨frames, pending, rfl⟩
  · rw [h]
    exact ⟨x.frames, x.pending ++ samples, rfl⟩

theorem compute_keeps (fe : FrontEnd S) (samples : List S) (x : Extractor S) :
    (answered (compute fe samples x)).2.rate = x.rate ∧
      (answered (compute fe samples x)).2.finished = x.finished := by
  obtain ⟨frames, pending, h⟩ := answered_compute fe samples x
  rw [h]
  exact ⟨rfl, rfl⟩

theorem computeThrough_keeps (fe : FrontEnd S) (r : Resampler S) (samples : List S)
    (x : Extractor S) :
    (answered (computeThrough fe r samples x)).2.rate = x.rate ∧
      (answered (computeThrough fe r samples x)).2.finished = x.finished := by
  rw [computeThrough]
  cases r.tryFeed samples with
  | ok converted r' => exact compute_keeps fe converted { x with resampler := some r' }
  | error f r' => exact ⟨rfl, rfl⟩

/-- Audio that has passed the checks leaves its rate behind, even if it fails after that. -/
theorem acceptChecked_keeps (fe : FrontEnd S) (rate : Int) (samples : List S) (x : Extractor S) :
    (answered (acceptChecked fe rate samples x).2).2.rate = some rate ∧
      (answered (acceptChecked fe rate samples x).2).2.finished = x.finished := by
  rw [acceptChecked]
  dsimp only
  split
  · exact compute_keeps fe samples { x with rate := some rate }
  · cases x.resampler with
    | some r => exact computeThrough_keeps fe r samples { x with rate := some rate }
    | none =>
        dsimp only
        cases fe.converter rate with
        | error f => exact ⟨rfl, rfl⟩
        | ok c =>
            exact computeThrough_keeps fe { converter := c } samples { x with rate := some rate }

/-- How the audio of a stream gets to the front end: there was none yet; it has the front end's own
rate; it has a rate that there is no converter for; or it goes through a resampler, which has
nothing left to convert unless the input is closed or no frame can be made any more. -/
inductive Route (fe : FrontEnd S) (x : Extractor S) : Prop where
  | unset (hrate : x.rate = none) (hresampler : x.resampler = none)
  | direct (hrate : x.rate = some fe.rate) (hresampler : x.resampler = none)
  | barred (rate : Int) (f : Fault) (hrate : x.rate = some rate) (hne : rate ≠ fe.rate)
      (hresampler : x.resampler = none) (hconverter : fe.converter rate = .error f)
  | resampled (rate : Int) (r : Resampler S) (hrate : x.rate = some rate) (hne : rate ≠ fe.rate)
      (hresampler : x.resampler = some r) (hconverter : fe.converter rate = .ok r.converter)
      (hdue : x.finished = true ∨ r.converter.refusal ≠ none ∨ r.fed < r.due ∨
        fe.window ≤ x.pending.length)

theorem Route.resampler_eq_none (h : Route fe x) (hrate : x.rate = none ∨ x.rate = some fe.rate) :
    x.resampler = none := by
  cases h with
  | unset _ hresampler => exact hresampler
  | direct _ hresampler => exact hresampler
  | barred _ _ _ _ hresampler _ => exact hresampler
  | resampled was r hwas hne _ _ _ =>
      obtain hrate | hrate := hrate
      · rw [hwas] at hrate
        cases hrate
      · rw [hwas] at hrate
        exact absurd (Option.some.inj hrate) hne

theorem finish_of_none (hfinished : x.finished = false) (hresampler : x.resampler = none) :
    finish fe x = .ok () { x with finished := true, pending := [] } := by
  simp only [finish, hfinished, hresampler, Bool.false_eq_true, if_false]

/-- Closing the input of a resampled stream takes what the resampler gives at the end, if it gives
anything and frames can be made of it. -/
theorem finish_of_flush (hfinished : x.finished = false) (hresampler : x.resampler = some r)
    {held : List S} {r' : Resampler S} (hflush : r.tryFlush = .ok held r') :
    finish fe x =
      match compute fe held { x with resampler := some r' } with
      | .error f x' => .error f x'
      | .ok () x' => .ok () { x' with finished := true, pending := [] } := by
  rw [finish, hfinished, hresampler]
  dsimp only
  rewrite [if_neg Bool.false_ne_true, hflush]
  rfl

theorem finish_of_flush_error (hfinished : x.finished = false) (hresampler : x.resampler = some r)
    {r' : Resampler S} (hflush : r.tryFlush = .error f r') :
    finish fe x = .error f { x with resampler := some r' } := by
  rw [finish, hfinished, hresampler]
  dsimp only
  rw [if_neg Bool.false_ne_true, hflush]

theorem compute_route_direct (hrate : x.rate = some fe.rate) (hresampler : x.resampler = none)
    (samples : List S) : Route fe (answered (compute fe samples x)).2 := by
  obtain ⟨frames, pending, h⟩ := answered_compute fe samples x
  rw [h]
  exact .direct hrate hresampler

theorem compute_route_resampled (hrate : x.rate = some rate) (hne : rate ≠ fe.rate)
    (hresampler : x.resampler = some r) (hconverter : fe.converter rate = .ok r.converter)
    (hdue : r.converter.refusal ≠ none ∨ r.fed < r.due) (samples : List S) :
    Route fe (answered (compute fe samples x)).2 := by
  obtain ⟨frames, pending, h⟩ := answered_compute fe samples x
  rw [h]
  exact .resampled rate r hrate hne hresampler hconverter (.inr (hdue.imp_right .inl))

theorem computeThrough_route (hfe : fe.ReadsBlocks) (hrate : x.rate = some rate)
    (hne : rate ≠ fe.rate) (hconverter : fe.converter rate = .ok r.converter) (samples : List S) :
    Route fe (answered (computeThrough fe r samples x)).2 := by
  have hpos := hfe _ _ hconverter
  cases hrefusal : r.converter.refusal with
  | none =>
      rw [computeThrough_of_converter hrefusal]
      have hfeed : fe.converter rate = .ok (r.feed samples).2.converter := by
        rw [Resampler.feed_converter, hconverter]
      exact compute_route_resampled (x := { x with resampler := some (r.feed samples).2 }) hrate hne
        rfl hfeed (.inr (Resampler.fed_feed_lt_due hpos)) _
  | some f =>
      have hrefused : (r.push samples).converter.refusal ≠ none :=
        ne_of_eq_of_ne hrefusal (Option.some_ne_none f)
      rw [computeThrough_of_refusal hpos hrefusal]
      split
      · exact .resampled rate (r.push samples) hrate hne rfl hconverter (.inr (.inl hrefused))
      · exact compute_route_resampled (x := { x with resampler := some (r.push samples) }) hrate hne
          rfl hconverter (.inl hrefused) _

theorem acceptChecked_route (hfe : fe.ReadsBlocks) (h : Route fe x)
    (hrate : x.rate = none ∨ x.rate = some rate) (samples : List S) :
    Route fe (answered (acceptChecked fe rate samples x).2).2 := by
  rw [acceptChecked]
  dsimp only
  split
  · rename_i hown
    subst hown
    exact compute_route_direct (x := { x with rate := some fe.rate }) rfl
      (h.resampler_eq_none hrate) samples
  · rename_i hne
    cases hresampler : x.resampler with
    | none =>
        dsimp only
        cases hconverter : fe.converter rate with
        | error f => exact .barred rate f rfl hne rfl hconverter
        | ok c =>
            exact computeThrough_route (r := { converter := c })
              (x := { x with rate := some rate }) hfe rfl hne hconverter samples
    | some r =>
        cases h with
        | unset _ hnone => cases hresampler.symm.trans hnone
        | direct _ hnone => cases hresampler.symm.trans hnone
        | barred _ _ _ _ hnone _ => cases hresampler.symm.trans hnone
        | resampled was r' hwas _ hr hconverter _ =>
            cases hresampler.symm.trans hr
            obtain hrate | hrate := hrate
            · cases hwas.symm.trans hrate
            · cases hwas.symm.trans hrate
              exact computeThrough_route (x := { x with rate := some rate }) hfe rfl hne hconverter
                samples

theorem finish_route (h : Route fe x) : Route fe (answered (finish fe x)).2 := by
  cases hfinished : x.finished with
  | true =>
      rw [finish, hfinished]
      exact h
  | false =>
      cases h with
      | unset hrate hresampler =>
          rw [finish_of_none hfinished hresampler]
          exact .unset hrate hresampler
      | direct hrate hresampler =>
          rw [finish_of_none hfinished hresampler]
          exact .direct hrate hresampler
      | barred rate f hrate hne hresampler hconverter =>
          rw [finish_of_none hfinished hresampler]
          exact .barred rate f hrate hne hresampler hconverter
      | resampled rate r hrate hne hresampler hconverter hdue =>
          obtain ⟨held, r', -, hflush, hr'⟩ | ⟨f, hrefusal, -, hflush⟩ := r.tryFlush_cases
          · rw [← hr'] at hconverter
            rw [finish_of_flush hfinished hresampler hflush]
            obtain ⟨frames, pending, hcompute⟩ | ⟨f, hstalled, hcompute⟩ :=
              compute_cases fe held { x with resampler := some r' }
            · rw [hcompute]
              exact .resampled rate r' hrate hne rfl hconverter (.inl rfl)
            · rw [hcompute]
              exact .resampled rate r' hrate hne rfl hconverter (.inr (.inr (.inr hstalled.window)))
          · rw [finish_of_flush_error hfinished hresampler hflush]
            exact .resampled rate r hrate hne rfl hconverter hdue

theorem Reached.route [Zero S] (hfe : fe.ReadsBlocks) (h : Reached fe x) : Route fe x := by
  induction h with
  | start => exact .unset rfl rfl
  | @step u x _ ih =>
      cases u with
      | accept rate samples =>
          rw [Use.perform, accept_eq]
          obtain ⟨-, f, hvetted⟩ | ⟨-, -, hrate, s, hvetted⟩ := vetted_cases x rate samples
          · rw [hvetted]
            exact ih
          · rw [hvetted]
            exact acceptChecked_route hfe ih hrate s
      | finish => exact finish_route ih
      | ready => exact ih
      | get index n => exact ih

end Extractor

end SpeechTransducer.Audio
