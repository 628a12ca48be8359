import SpeechTransducer.Proofs.Audio.Resampling
import SpeechTransducer.Proofs.Audio.Windows

/-!
Feature extraction from audio that comes in pieces. The frames are those of the whole signal at the
front end's rate: of the audio itself, or of what a converter makes of all of it. A piece is taken
as if what came before it were still there, and what the resampler holds back follows at the end.
-/

namespace SpeechTransducer.Audio

variable {S : Type}

/-- A whole signal at the front end's rate. -/
def FrontEnd.atRate (fe : FrontEnd S) (rate : Int) (signal : List S) : Except Fault (List S) :=
  if rate = fe.rate then .ok signal else (fe.converter rate).map fun c => c.convert signal

namespace Extractor

/-- One-dimensional samples, as they are handed over. -/
def asArray (samples : List S) : Argument S :=
  .array { shape := [samples.length], data := samples.toArray }

/-- Takes pieces of audio one after the other. -/
def acceptAll (fe : FrontEnd S) (rate : Int) : List (List S) → EStateM Fault (Extractor S) Unit
  | [] => pure ()
  | piece :: pieces => do
    fun x => (accept fe rate (asArray piece) x).2
    acceptAll fe rate pieces

/-- Takes pieces of audio, and closes the input. -/
def extract (fe : FrontEnd S) (rate : Int) (pieces : List (List S)) :
    EStateM Fault (Extractor S) Unit := do
  acceptAll fe rate pieces
  finish fe

/-- The frames of a signal: one for every complete window in it. -/
structure FramesOf (fe : FrontEnd S) (signal : List S) (frames : List (List S)) : Prop where
  length : (frames.length : Int) =
    if signal.length < fe.window then 0 else 1 + (signal.length - fe.window) / fe.shift
  frame : ∀ i < frames.length, i * fe.shift.toNat + fe.window.toNat ≤ signal.length ∧
    frames[i]? = some (fe.frame ((signal.drop (i * fe.shift.toNat)).take fe.window.toNat))

variable {fe : FrontEnd S} {rate : Int} {x : Extractor S} {signal : List S}

theorem length_windows (window shift count : Nat) (signal : List S) :
    (windows window shift count signal).length = count := by
  induction count generalizing signal with
  | zero => rfl
  | succ count ih => rw [windows, List.length_cons, ih]

theorem getElem?_windows {window shift count i : Nat} (hi : i < count) (signal : List S) :
    (windows window shift count signal)[i]? = some ((signal.drop (i * shift)).take window) := by
  induction count generalizing i signal with
  | zero => cases hi
  | succ count ih =>
      rw [windows]
      cases i with
      | zero => simp
      | succ i =>
          rw [List.getElem?_cons_succ, ih (Nat.lt_of_succ_lt_succ hi), List.drop_drop,
            Nat.succ_mul, Nat.add_comm shift]

theorem complete_eq (h : fe.Overlapping) (n : Nat) :
    (complete fe.window.toNat fe.shift.toNat n : Int) =
      if n < fe.window then 0 else 1 + (n - fe.window) / fe.shift := by
  have hpos := h.shift_pos
  have hle := h.shift_le
  rw [complete]
  split
  · rw [if_pos (by omega), Int.natCast_zero]
  · have hsub : ((n - fe.window.toNat : Nat) : Int) = n - fe.window := by omega
    rw [if_neg (by omega), Int.natCast_add, Int.natCast_div, hsub,
      Int.toNat_of_nonneg (by omega : 0 ≤ fe.shift), Int.natCast_one]

theorem framesOf_taken (h : fe.Overlapping) (hx : x.frames = []) :
    FramesOf fe signal (taken fe signal x).frames := by
  have hpos : 0 < fe.shift.toNat := by
    have hpos := h.shift_pos
    omega
  have hlength : (taken fe signal x).frames.length =
      complete fe.window.toNat fe.shift.toNat signal.length := by
    simp only [taken, hx, List.nil_append, List.length_map, length_windows]
  refine ⟨by rw [hlength, complete_eq h], fun i hi => ?_⟩
  rw [hlength] at hi
  refine ⟨(lt_complete hpos).mp hi, ?_⟩
  simp only [taken, hx, List.nil_append, List.getElem?_map, getElem?_windows hi, Option.map_some]

theorem compute_of_check (samples : List S) (h : fe.Overlapping) (hcheck : fe.check = .ok ()) :
    compute fe samples x = .ok () (taken fe (x.pending ++ samples) x) := by
  have hgrow := grow_of_check (x := x) samples h hcheck
  rw [grow] at hgrow
  cases hcompute : compute fe samples x with
  | ok _ x' =>
      rw [hcompute] at hgrow
      rw [Except.ok.inj hgrow]
  | error f x' =>
      rw [hcompute] at hgrow
      cases hgrow

/-- Samples after a signal that has been taken. -/
theorem compute_taken (samples : List S) (h : fe.Overlapping) (hcheck : fe.check = .ok ()) :
    compute fe samples (taken fe signal x) = .ok () (taken fe (signal ++ samples) x) := by
  rw [compute_of_check samples h hcheck, taken_append h]

/-- One-dimensional samples are taken unless the rate changes. -/
theorem accept_asArray (hfinished : x.finished = false) (hrate : x.rate = none ∨ x.rate = some rate)
    (samples : List S) :
    (accept fe rate (asArray samples) x).2 = (acceptChecked fe rate samples x).2 := by
  obtain hrate | hrate := hrate <;>
    simp [accept, asArray, Argument.tensor, hfinished, hrate]

/-- Audio at the front end's own rate needs no converter. -/
theorem accept_ownRate (hfinished : x.finished = false)
    (hrate : x.rate = none ∨ x.rate = some fe.rate) (samples : List S) :
    (accept fe fe.rate (asArray samples) x).2 =
      compute fe samples { x with rate := some fe.rate } := by
  rw [accept_asArray hfinished hrate, acceptChecked]
  simp only [if_true]

theorem acceptAll_cons (piece : List S) (pieces : List (List S)) {x' : Extractor S}
    (h : (accept fe rate (asArray piece) x).2 = .ok () x') :
    acceptAll fe rate (piece :: pieces) x = acceptAll fe rate pieces x' := by
  rw [acceptAll]
  simp only [bind, EStateM.bind, h]

theorem taken_nil (h : fe.Overlapping) {r : Option (Resampler S)} {was : Option Int} :
    taken fe [] { rate := was, resampler := r } = { rate := was, resampler := r } := by
  have hpos := h.shift_pos
  have hle := h.shift_le
  have hcount : complete fe.window.toNat fe.shift.toNat 0 = 0 := by
    rw [complete, if_pos (by omega)]
  simp [taken, hcount, windows]

/-- At the front end's own rate all that has been accepted has been taken. -/
theorem acceptAll_taken (h : fe.Overlapping) (hcheck : fe.check = .ok ()) {was : Option Int}
    (hwas : was = none ∨ was = some fe.rate) (signal : List S) (pieces : List (List S)) :
    ∃ now, acceptAll fe fe.rate pieces (taken fe signal { rate := was }) =
      .ok () (taken fe (signal ++ pieces.flatten) { rate := now }) := by
  induction pieces generalizing signal was with
  | nil => exact ⟨was, by rw [List.flatten_nil, List.append_nil]; rfl⟩
  | cons piece pieces ih =>
      have hpiece : (accept fe fe.rate (asArray piece) (taken fe signal { rate := was })).2 =
          .ok () (taken fe (signal ++ piece) { rate := some fe.rate }) := by
        rw [accept_asArray rfl hwas, acceptChecked]
        dsimp only
        rw [if_pos rfl]
        exact compute_taken (x := { rate := some fe.rate }) piece h hcheck
      obtain ⟨now, hrest⟩ := ih (.inr rfl) (signal ++ piece)
      refine ⟨now, ?_⟩
      rw [acceptAll_cons piece pieces hpiece, hrest, List.flatten_cons, List.append_assoc]

/-- At another rate all that the resampler has given has been taken. -/
theorem acceptAll_through (h : fe.Overlapping) (hcheck : fe.check = .ok ()) (hrate : rate ≠ fe.rate)
    {r r' : Resampler S} {pieces : List (List S)} {converted : List S}
    (hrefusal : r.converter.refusal = none) (hfeed : r.tryFeedAll pieces = .ok converted r')
    (signal : List S) :
    acceptAll fe rate pieces (taken fe signal { rate := some rate, resampler := some r }) =
      .ok () (taken fe (signal ++ converted) { rate := some rate, resampler := some r' }) := by
  induction pieces generalizing signal r converted with
  | nil =>
      cases hfeed
      rw [List.append_nil]
      rfl
  | cons piece pieces ih =>
      rw [Resampler.tryFeedAll_cons hrefusal] at hfeed
      cases hlater : Resampler.tryFeedAll pieces (r.feed piece).2 with
      | error f r'' =>
          rw [hlater] at hfeed
          cases hfeed
      | ok later r'' =>
          rw [hlater] at hfeed
          cases hfeed
          have hpiece :
              (accept fe rate (asArray piece)
                (taken fe signal { rate := some rate, resampler := some r })).2 =
              .ok () (taken fe (signal ++ (r.feed piece).1)
                { rate := some rate, resampler := some (r.feed piece).2 }) := by
            rw [accept_asArray rfl (.inr rfl), acceptChecked]
            dsimp only
            rw [if_neg hrate]
            dsimp only [taken]
            rw [computeThrough, Resampler.tryFeed_eq hrefusal]
            exact compute_taken (x := { rate := some rate, resampler := some (r.feed piece).2 })
              (r.feed piece).1 h hcheck
          rw [acceptAll_cons piece pieces hpiece, ← List.append_assoc]
          exact ih (by rwa [Resampler.feed_converter]) hlater _

/-- The first audio at another rate makes the resampler. -/
theorem acceptAll_first (hrate : rate ≠ fe.rate) {c : Converter S}
    (hconverter : fe.converter rate = .ok c) (piece : List S) (pieces : List (List S)) :
    acceptAll fe rate (piece :: pieces) {} =
      acceptAll fe rate (piece :: pieces)
        { rate := some rate, resampler := some { converter := c } } := by
  have hpiece : (accept fe rate (asArray piece) {}).2 = (accept fe rate (asArray piece)
      { rate := some rate, resampler := some { converter := c } }).2 := by
    rw [accept_asArray rfl (.inl rfl), accept_asArray rfl (.inr rfl), acceptChecked, acceptChecked]
    dsimp only
    rw [if_neg hrate, if_neg hrate, hconverter]
    rfl
  simp only [acceptAll, bind, EStateM.bind, hpiece]

/-- What the resampler gives at the end is taken before the input is closed. -/
theorem finish_through (h : fe.Overlapping) (hcheck : fe.check = .ok ())
    {r r' : Resampler S} {held : List S} (hflush : r.tryFlush = .ok held r') :
    ∃ x, finish fe (taken fe signal { rate := some rate, resampler := some r }) = .ok () x ∧
      x.frames = (taken fe (signal ++ held) {}).frames := by
  have hcompute : compute fe held (taken fe signal { rate := some rate, resampler := some r' }) =
      .ok () (taken fe (signal ++ held) { rate := some rate, resampler := some r' }) :=
    compute_taken held h hcheck
  dsimp only [taken] at hcompute ⊢
  rw [finish]
  dsimp only
  rw [if_neg Bool.false_ne_true, hflush]
  dsimp only
  rw [hcompute]
  exact ⟨_, rfl, rfl⟩

section

variable [Zero S]

theorem extract_eq (h : fe.Overlapping) (hcheck : fe.check = .ok ())
    (hconverter : rate ≠ fe.rate →
      ∃ c, fe.converter rate = .ok c ∧ c.Between rate.toNat fe.rate.toNat)
    (pieces : List (List S)) :
    ∃ y x, fe.atRate rate pieces.flatten = .ok y ∧ extract fe rate pieces {} = .ok () x ∧
      x.frames = (taken fe y {}).frames := by
  have hextract (x : Extractor S) (hx : acceptAll fe rate pieces {} = .ok () x) :
      extract fe rate pieces {} = finish fe x := by
    simp only [extract, bind, EStateM.bind, hx]
  rw [FrontEnd.atRate]
  split
  · rename_i hrate
    subst hrate
    obtain ⟨now, hall⟩ := acceptAll_taken h hcheck (.inl rfl) [] pieces
    rw [taken_nil h, List.nil_append] at hall
    exact ⟨_, _, rfl, hextract _ hall, rfl⟩
  · rename_i hrate
    obtain ⟨c, hc, hbetween⟩ := hconverter hrate
    rw [hc]
    cases pieces with
    | nil =>
        -- Only a piece makes a resampler, so here there is none to close.
        have hnil : c.convert [] = [] := by
          rw [← List.length_eq_zero_iff, hbetween.blockwise.length_convert]
          exact Converter.count_zero hbetween.blockwise.inBlock_pos
        refine ⟨[], _, congrArg Except.ok hnil, hextract _ rfl, ?_⟩
        rw [taken_nil h]
    | cons piece pieces =>
        obtain ⟨next, r, hfeed, hend⟩ :=
          Resampler.holding_tryFeedAll hbetween.blockwise hbetween.refusal (piece :: pieces)
        have hall := acceptAll_through h hcheck hrate hbetween.refusal hfeed []
        rw [taken_nil h, List.nil_append, ← acceptAll_first hrate hc] at hall
        obtain ⟨x, hfinish, hframes⟩ := finish_through h hcheck
          (Resampler.tryFlush_eq (hend.converter ▸ hbetween.refusal))
        rw [hend.flush hbetween.blockwise] at hframes
        exact ⟨_, x, rfl, (hextract _ hall).trans hfinish, hframes⟩

/-- However audio at one rate is cut into pieces, its frames are those of the whole signal at the
front end's rate, as if it came in one piece. At the front end's own rate that also holds of the
audio so far, before the input is closed. -/
theorem extract_framesOf (fe : FrontEnd S) (h : fe.Overlapping) (hcheck : fe.check = .ok ())
    (rate : Int)
    (hconverter : rate ≠ fe.rate →
      ∃ c, fe.converter rate = .ok c ∧ c.Between rate.toNat fe.rate.toNat)
    (pieces : List (List S)) :
    (∃ y x whole, fe.atRate rate pieces.flatten = .ok y ∧
      extract fe rate pieces {} = .ok () x ∧ FramesOf fe y x.frames ∧
      extract fe rate [pieces.flatten] {} = .ok () whole ∧ x.frames = whole.frames) ∧
    (rate = fe.rate → ∃ x, acceptAll fe rate pieces {} = .ok () x ∧
      FramesOf fe pieces.flatten x.frames) := by
  constructor
  · obtain ⟨y, x, hy, hx, hframes⟩ := extract_eq h hcheck hconverter pieces
    obtain ⟨y', whole, hy', hwhole, hframes'⟩ :=
      extract_eq h hcheck hconverter [pieces.flatten]
    rw [List.flatten_singleton, hy] at hy'
    cases hy'
    refine ⟨y, x, whole, hy, hx, ?_, hwhole, hframes.trans hframes'.symm⟩
    rw [hframes]
    exact framesOf_taken h rfl
  · rintro rfl
    obtain ⟨now, hall⟩ := acceptAll_taken h hcheck (.inl rfl) [] pieces
    rw [taken_nil h, List.nil_append] at hall
    exact ⟨_, hall, framesOf_taken h rfl⟩

end

/-- The mel filterbank with exact conversions between the rates. -/
def exactBank : FrontEnd Float :=
  { FeatureConfig.frontEnd {} with
    converter := fun rate =>
      let divisor := rate.toNat.gcd 16000
      .ok (Sinc.Shape.mk (rate.toNat / divisor) (16000 / divisor)).exactly }

theorem extract_framesOf_resampled :
    let pieces := [] :: (List.range 1500).map fun k => [Float.ofNat k / 2048]
    (∃ y x whole, exactBank.atRate 24000 pieces.flatten = .ok y ∧
      extract exactBank 24000 pieces {} = .ok () x ∧ FramesOf exactBank y x.frames ∧
      extract exactBank 24000 [pieces.flatten] {} = .ok () whole ∧ x.frames = whole.frames) ∧
    (24000 = exactBank.rate → ∃ x, acceptAll exactBank 24000 pieces {} = .ok () x ∧
      FramesOf exactBank pieces.flatten x.frames) := by
  intro pieces
  have hfe : exactBank.Overlapping := ⟨by decide +kernel, by decide +kernel⟩
  refine extract_framesOf exactBank hfe rfl 24000 (fun _ => ⟨_, rfl, ?_⟩) pieces
  exact
    { source_pos := by decide
      target_pos := by decide
      inBlock := rfl
      outBlock := rfl
      refusal := rfl
      isLocal := Sinc.isLocal_exactly _ }

end Extractor

end SpeechTransducer.Audio
