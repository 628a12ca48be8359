import SpeechTransducer.Proofs.Audio.Routes

/-!
Streams that take no audio any more. All audio at the rate of such a stream fails with the same
fault, and what is kept of it changes nothing about that. So calls cannot tell how much audio there
was since.
-/

namespace SpeechTransducer.Audio

variable {S : Type}

namespace Extractor

variable {fe : FrontEnd S} {rate : Int} {r : Resampler S} {samples : List S} {x y : Extractor S}
variable {f g : Fault}

/-- Why audio at a rate fails, whatever it is: there is no converter from the rate, what has been
fed is more than a converter refuses to convert, or no frame can be made of a complete window. -/
inductive Obstacle (fe : FrontEnd S) (rate : Int) (f : Fault) (x : Extractor S) : Prop where
  | direct (hrate : rate = fe.rate) (hresampler : x.resampler = none)
      (hstalled : Stalled fe f x.pending)
  | barred (hne : rate ≠ fe.rate) (hresampler : x.resampler = none)
      (hconverter : fe.converter rate = .error f)
  | resampled (r : Resampler S) (hne : rate ≠ fe.rate) (hresampler : x.resampler = some r)
      (hpos : 0 < r.converter.inBlock)
      (hrefusal : r.converter.refusal = none ∨ r.converter.refusal = some f)
      (hcause : Stalled fe f x.pending ∨ r.converter.refusal = some f ∧ r.due ≤ r.fed)

/-- A stream that takes no audio any more: all audio at its rate fails with the same fault. -/
structure Jammed (fe : FrontEnd S) (rate : Int) (f : Fault) (x : Extractor S) : Prop where
  isOpen : x.finished = false
  atRate : x.rate = some rate
  obstacle : Obstacle fe rate f x

/-- States that look the same as long as no audio is taken. -/
structure Resembles (x y : Extractor S) : Prop where
  frames : x.frames = y.frames
  resampler : x.resampler = none ↔ y.resampler = none

theorem Resembles.congr {x' y' : Extractor S} (h : Resembles x y) (hx : Resembles x' x)
    (hy : Resembles y' y) : Resembles x' y' where
  frames := hx.frames.trans (h.frames.trans hy.frames.symm)
  resampler := hx.resampler.trans (h.resampler.trans hy.resampler.symm)

theorem computeThrough_jammed (hresampler : x.resampler = some r) (h : Jammed fe rate f x)
    (samples : List S) :
    ∃ y, computeThrough fe r samples x = .error f y ∧ Jammed fe rate f y ∧ Resembles y x := by
  have hsome {r' : Resampler S} : some r' = none ↔ x.resampler = none := by simp [hresampler]
  cases h.obstacle with
  | direct _ hnone _ => cases hresampler.symm.trans hnone
  | barred _ hnone _ => cases hresampler.symm.trans hnone
  | resampled r' hne hr hpos hrefusal hcause =>
      cases hresampler.symm.trans hr
      cases hconverter : r.converter.refusal with
      | none =>
          have hstalled : Stalled fe f x.pending :=
            hcause.resolve_right fun h => nomatch hconverter.symm.trans h.1
          have hfeed : (r.feed samples).2.converter = r.converter :=
            Resampler.feed_converter samples
          rw [computeThrough_of_converter hconverter]
          refine ⟨_, compute_of_stalled (x := { x with resampler := some (r.feed samples).2 })
            (hstalled.append _), ⟨h.isOpen, h.atRate, ?_⟩, rfl, hsome⟩
          refine .resampled (r.feed samples).2 hne rfl ?_ ?_ (.inl (hstalled.append _))
          · rwa [hfeed]
          · rwa [hfeed]
      | some f' =>
          obtain rfl : f' = f := by
            obtain hnone | hsome := hrefusal
            · cases hconverter.symm.trans hnone
            · exact Option.some.inj (hconverter.symm.trans hsome)
          rw [computeThrough_of_refusal hpos hconverter]
          split
          · rename_i hdue
            refine ⟨_, rfl, ⟨h.isOpen, h.atRate, ?_⟩, rfl, hsome⟩
            refine .resampled (r.push samples) hne rfl hpos (.inr hconverter)
              (.inr ⟨hconverter, ?_⟩)
            rwa [Resampler.due_push, Resampler.fed_push]
          · rename_i hdue
            have hstalled : Stalled fe f' x.pending :=
              hcause.resolve_right fun h => hdue (by omega)
            refine ⟨_, compute_of_stalled (x := { x with resampler := some (r.push samples) })
              (hstalled.append []), ⟨h.isOpen, h.atRate, ?_⟩, rfl, hsome⟩
            exact .resampled (r.push samples) hne rfl hpos (.inr hconverter)
              (.inl (hstalled.append []))

section

variable (hrate : x.rate = some rate)
include hrate

theorem acceptChecked_direct (hown : rate = fe.rate) (samples : List S) :
    (acceptChecked fe rate samples x).2 = compute fe samples x := by
  have hsame : { x with rate := some rate } = x := by rw [← hrate]
  rw [Extractor.acceptChecked, if_pos hown, hsame]

theorem acceptChecked_barred (hne : rate ≠ fe.rate) (hresampler : x.resampler = none)
    (hconverter : fe.converter rate = .error f) (samples : List S) :
    (acceptChecked fe rate samples x).2 = .error f x := by
  have hsame : { x with rate := some rate } = x := by rw [← hrate]
  rw [Extractor.acceptChecked, if_neg hne, hsame, hresampler, hconverter]

theorem acceptChecked_resampled (hne : rate ≠ fe.rate) (hresampler : x.resampler = some r)
    (samples : List S) : (acceptChecked fe rate samples x).2 = computeThrough fe r samples x := by
  have hsame : { x with rate := some rate } = x := by rw [← hrate]
  rw [Extractor.acceptChecked, if_neg hne, hsame, hresampler]

end

theorem Jammed.acceptChecked (h : Jammed fe rate f x) (samples : List S) :
    ∃ y, (acceptChecked fe rate samples x).2 = .error f y ∧ Jammed fe rate f y ∧
      Resembles y x := by
  cases h.obstacle with
  | direct hrate hresampler hstalled =>
      rw [acceptChecked_direct h.atRate hrate]
      refine ⟨_, compute_of_stalled (hstalled.append samples), ⟨h.isOpen, h.atRate, ?_⟩, rfl, .rfl⟩
      exact .direct hrate hresampler (hstalled.append samples)
  | barred hne hresampler hconverter =>
      exact ⟨x, acceptChecked_barred h.atRate hne hresampler hconverter samples, h, rfl, .rfl⟩
  | resampled r hne hresampler _ _ _ =>
      rw [acceptChecked_resampled h.atRate hne hresampler]
      exact computeThrough_jammed hresampler h samples

/-- Closing the input goes through without a resampler; behind one it meets the same obstacle. -/
theorem Jammed.finish (h : Jammed fe rate f x) :
    (x.resampler = none ∧ finish fe x = .ok () { x with finished := true, pending := [] }) ∨
    (x.resampler ≠ none ∧ ∃ y, finish fe x = .error f y ∧ Jammed fe rate f y ∧
      Resembles y x) := by
  cases h.obstacle with
  | direct _ hresampler _ => exact .inl ⟨hresampler, finish_of_none h.isOpen hresampler⟩
  | barred _ hresampler _ => exact .inl ⟨hresampler, finish_of_none h.isOpen hresampler⟩
  | resampled r hne hresampler hpos hrefusal hcause =>
      have hsome {r' : Resampler S} : some r' = none ↔ x.resampler = none := by simp [hresampler]
      refine .inr ⟨ne_of_eq_of_ne hresampler (Option.some_ne_none r), ?_⟩
      obtain ⟨held, r', hgiven, hflush, hr'⟩ | ⟨f', hrefused, -, hflush⟩ := r.tryFlush_cases
      · have hstalled : Stalled fe f x.pending := by
          refine hcause.resolve_right fun h => ?_
          have hlt := Resampler.position_lt_due hpos
          obtain hnone | hfed := hgiven
          · cases h.1.symm.trans hnone
          · omega
        rw [← hr'] at hpos hrefusal
        rw [finish_of_flush h.isOpen hresampler hflush,
          compute_of_stalled (x := { x with resampler := some r' }) (hstalled.append held)]
        refine ⟨_, rfl, ⟨h.isOpen, h.atRate, ?_⟩, rfl, hsome⟩
        exact .resampled r' hne rfl hpos hrefusal (.inl (hstalled.append held))
      · obtain rfl : f' = f := by
          obtain hnone | hf := hrefusal
          · cases hrefused.symm.trans hnone
          · exact Option.some.inj (hrefused.symm.trans hf)
        rw [finish_of_flush_error h.isOpen hresampler hflush]
        refine ⟨_, rfl, ⟨h.isOpen, h.atRate, ?_⟩, rfl, hsome⟩
        exact .resampled r hne rfl hpos hrefusal hcause

section

variable [Zero S]

/-- Whatever is called, two jammed streams that look the same answer the same. Then they are jammed
as before, or closed and the same. -/
theorem Jammed.perform (hx : Jammed fe rate f x) (hy : Jammed fe rate f y) (h : Resembles x y)
    (u : Use S) :
    (u.perform fe x).1 = (u.perform fe y).1 ∧
      ((u.perform fe x).2 = (u.perform fe y).2 ∨
        Jammed fe rate f (u.perform fe x).2 ∧ Jammed fe rate f (u.perform fe y).2 ∧
          Resembles (u.perform fe x).2 (u.perform fe y).2) := by
  cases u with
  | accept now samples =>
      rw [Use.perform, Use.perform, accept_eq, accept_eq,
        vetted_congr (hx.isOpen.trans hy.isOpen.symm) (hx.atRate.trans hy.atRate.symm)]
      obtain ⟨-, f', hvetted⟩ | ⟨-, -, hrate, s, hvetted⟩ := vetted_cases y now samples
      · rw [hvetted]
        exact ⟨rfl, .inr ⟨hx, hy, h⟩⟩
      · obtain rfl : rate = now := by
          obtain hnone | hsome := hrate
          · cases hy.atRate.symm.trans hnone
          · exact Option.some.inj (hy.atRate.symm.trans hsome)
        obtain ⟨x', hx', hxjammed, hxlike⟩ := hx.acceptChecked s
        obtain ⟨y', hy', hyjammed, hylike⟩ := hy.acceptChecked s
        rw [hvetted]
        dsimp only
        rw [hx', hy']
        exact ⟨rfl, .inr ⟨hxjammed, hyjammed, h.congr hxlike hylike⟩⟩
  | finish =>
      rw [Use.perform, Use.perform]
      obtain ⟨hxnone, hx'⟩ | ⟨hxsome, x', hx', hxjammed, hxlike⟩ := hx.finish
      · have hynone := h.resampler.mp hxnone
        rw [hx', finish_of_none hy.isOpen hynone]
        simp [answered, h.frames, hx.atRate, hy.atRate, hxnone, hynone]
      · obtain ⟨hynone, -⟩ | ⟨-, y', hy', hyjammed, hylike⟩ := hy.finish
        · exact absurd (h.resampler.mpr hynone) hxsome
        · rw [hx', hy']
          exact ⟨rfl, .inr ⟨hxjammed, hyjammed, h.congr hxlike hylike⟩⟩
  | ready =>
      refine ⟨?_, .inr ⟨hx, hy, h⟩⟩
      simp only [Use.perform, ready, h.frames]
  | get index n =>
      refine ⟨?_, .inr ⟨hx, hy, h⟩⟩
      simp only [Use.perform, get_congr h.frames]

theorem sameAnswers_of_jammed (hx : Jammed fe rate f x) (hy : Jammed fe rate f y)
    (h : Resembles x y) : SameAnswers fe x y := by
  refine sameAnswers_of_step (R := fun x y => x = y ∨
    Jammed fe rate f x ∧ Jammed fe rate f y ∧ Resembles x y) ?_ (.inr ⟨hx, hy, h⟩)
  intro x y hxy u
  obtain rfl | ⟨hx, hy, h⟩ := hxy
  · exact ⟨rfl, .inl rfl⟩
  · exact hx.perform hy h u

end

end Extractor

end SpeechTransducer.Audio
