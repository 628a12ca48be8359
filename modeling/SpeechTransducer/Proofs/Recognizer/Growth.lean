import SpeechTransducer.Proofs.Audio.Answers
import SpeechTransducer.Proofs.Recognizer.Calls

/-!
Frames of a stream are only added, also by calls that fail, and only where the settings describe
frames at all. So a window that is there stays what it is, and can be read.
-/

namespace SpeechTransducer.Audio

variable {S : Type}

/-- Settings that describe frames give a number of features that an array can have, also one without
frames. -/
def FrontEnd.HasBins (fe : FrontEnd S) : Prop :=
  fe.check = .ok () → 0 ≤ fe.bins ∧ fe.bins < 2 ^ 61

theorem FeatureConfig.frontEnd_hasBins (c : FeatureConfig) : c.frontEnd.HasBins := by
  intro h
  change c.check = .ok () at h
  change 0 ≤ c.bins ∧ c.bins < 2 ^ 61
  rw [FeatureConfig.check] at h
  split_ifs at h with hleast hmost
  obtain ⟨-, hpos, -⟩ := hleast
  have hlt : c.bins < 67108864 := hmost
  omega

namespace Extractor

/-- Frames may have been added, if the settings describe frames. -/
structure Grows (fe : FrontEnd S) (before after : List (List S)) : Prop where
  prefixed : before <+: after
  check : after = before ∨ fe.check = .ok ()

variable {fe : FrontEnd S} {x : Extractor S}

theorem Grows.refl (fe : FrontEnd S) (frames : List (List S)) : Grows fe frames frames :=
  ⟨List.prefix_refl _, .inl rfl⟩

theorem compute_grows (samples : List S) (x : Extractor S) :
    Grows fe x.frames (leftBehind (compute fe samples x)).frames := by
  rw [compute]
  dsimp only
  split
  · exact .refl fe _
  · split
    · exact .refl fe _
    · split
      · exact .refl fe _
      · rename_i hcheck
        exact ⟨List.prefix_append _ _, .inr hcheck⟩

theorem computeThrough_grows (r : Resampler S) (samples : List S) (x : Extractor S) :
    Grows fe x.frames (leftBehind (computeThrough fe r samples x)).frames := by
  rw [computeThrough]
  cases r.tryFeed samples with
  | ok converted r' => exact compute_grows converted { x with resampler := some r' }
  | error f r' => exact .refl fe _

theorem acceptChecked_grows (rate : Int) (samples : List S) (x : Extractor S) :
    Grows fe x.frames (leftBehind (acceptChecked fe rate samples x).2).frames := by
  rw [acceptChecked]
  dsimp only
  split
  · exact compute_grows _ { x with rate := some rate }
  · split
    · exact computeThrough_grows _ _ { x with rate := some rate }
    · dsimp only
      split
      · exact .refl fe _
      · exact computeThrough_grows _ _ { x with rate := some rate }

theorem accept_grows (rate : Int) (samples : Argument S) (x : Extractor S) :
    Grows fe x.frames (leftBehind (accept fe rate samples x).2).frames := by
  rw [accept_eq]
  cases vetted x rate samples with
  | ok s => exact acceptChecked_grows rate s x
  | error f => exact .refl fe _

theorem finish_grows (x : Extractor S) :
    Grows fe x.frames (leftBehind (finish fe x)).frames := by
  rw [finish]
  split
  · exact .refl fe _
  · dsimp only
    cases x.resampler with
    | none => exact .refl fe _
    | some r =>
        dsimp only
        cases r.tryFlush with
        | error f r' => exact .refl fe _
        | ok held r' =>
            have hgrows : Grows fe x.frames
                (leftBehind (compute fe held { x with resampler := some r' })).frames :=
              compute_grows held { x with resampler := some r' }
            dsimp only at hgrows ⊢
            generalize compute fe held { x with resampler := some r' } = result at hgrows ⊢
            cases result with
            | ok _ x' => exact hgrows
            | error f x' => exact hgrows

variable [Zero S]

/-- The frames from a position on, `n` of them, as one array. -/
def window (fe : FrontEnd S) (x : Extractor S) (index n : Int) : Tensor S :=
  if n = 0 then .filled .float32 [0, fe.bins.toNat] 0
  else .ofRows .float32 ((x.frames.drop index.toNat).take n.toNat)

/-- A window that is there stays the same when frames are added. -/
theorem window_of_prefix {x y : Extractor S} {index n : Int} (h : x.frames <+: y.frames)
    (hindex : 0 ≤ index) (hn : 0 ≤ n) (hin : index + n ≤ x.ready) :
    y.window fe index n = x.window fe index n := by
  obtain ⟨more, hmore⟩ := h
  rw [ready] at hin
  rw [window, window, ← hmore, List.drop_append_of_le_length (by omega),
    List.take_append_of_le_length]
  rw [List.length_drop]
  omega

theorem zeros_eq_ok {bins : Int} (hnonneg : 0 ≤ bins) (hlt : bins < 2 ^ 61) :
    Tensor.zeros .float32 [0, bins] = .ok (.filled .float32 [0, bins.toNat] (0 : S)) := by
  have hfits : [0, bins].all Number.fitsWord = true := by
    simp [Number.fitsWord]
    omega
  obtain ⟨bytes, hbytes⟩ : ∃ bytes, Tensor.bytesOf .float32 [0, bins] = .ok bytes := by
    have hword : Number.fitsWord ((4 : Nat) * bins) = true := by
      simp [Number.fitsWord]
      omega
    change ∃ bytes, Tensor.bytesOf.more 4 bins >>= pure = .ok bytes
    rw [Tensor.bytesOf.more, if_neg (Int.not_lt.mpr hnonneg), if_pos hword]
    split
    · exact ⟨4, rfl⟩
    · exact ⟨4 * bins.toNat, rfl⟩
  have hvolume : ¬(Tensor.memory ≤ bytes ∧ 0 < Tensor.volume ([0, bins].map Int.toNat)) := by
    simp [Tensor.volume]
  simp only [Tensor.zeros, hfits, hbytes, Bool.not_true, Bool.false_eq_true, if_false, bind,
    Except.bind, pure, Except.pure, if_neg hvolume]
  rfl

/-- A window that is there can be read, also one without frames. -/
theorem get_eq_window {x : Extractor S} {index n : Int} (hbins : fe.HasBins)
    (hcheck : fe.check = .ok ()) (hindex : 0 ≤ index) (hn : 0 ≤ n) (hin : index + n ≤ x.ready) :
    get fe x index n = .ok (x.window fe index n) := by
  rw [get, window]
  split
  · obtain ⟨hnonneg, hlt⟩ := hbins hcheck
    exact zeros_eq_ok hnonneg hlt
  · rw [if_neg (by omega)]
    obtain ⟨i, rfl⟩ := Int.eq_ofNat_of_zero_le hindex
    obtain ⟨k, rfl⟩ := Int.eq_ofNat_of_zero_le hn
    have hslice : slice (i : Int) ((i : Int) + k) x.frames = (x.frames.drop i).take k := by
      rw [← Int.natCast_add, slice_natCast, Nat.add_sub_cancel_left]
    rw [hslice]
    split
    · rename_i hnil
      have hlength := congrArg List.length hnil
      rw [List.length_take, List.length_drop, List.length_nil] at hlength
      rw [ready] at hin
      omega
    · rfl

end Extractor

end SpeechTransducer.Audio
