import Mathlib.Algebra.Order.Ring.Nat
import SpeechTransducer.Audio.Extractor

/-!
Frames of audio that comes in pieces. The windows that are complete after two pieces are those that
the first piece completes and those that the second one adds, counted from where the first piece
left off. What is left off is never behind the end of the audio, since windows overlap or touch.
-/

namespace SpeechTransducer.Audio

variable {S : Type}

/-- Windows start at least one sample apart, and leave no sample out. -/
structure FrontEnd.Overlapping (fe : FrontEnd S) : Prop where
  shift_pos : 1 ≤ fe.shift
  shift_le : fe.shift ≤ fe.window

namespace Extractor

section

variable {window shift : Nat}

/-- The number of complete windows in a signal of a length. -/
def complete (window shift length : Nat) : Nat :=
  if length < window then 0 else 1 + (length - window) / shift

theorem lt_complete (hpos : 0 < shift) {k n : Nat} :
    k < complete window shift n ↔ k * shift + window ≤ n := by
  rw [complete]
  split
  · omega
  · rw [Nat.lt_one_add_iff, Nat.le_div_iff_mul_le hpos]
    omega

theorem complete_mul_le (hpos : 0 < shift) (hle : shift ≤ window) (n : Nat) :
    complete window shift n * shift ≤ n := by
  cases hc : complete window shift n with
  | zero => omega
  | succ k =>
      have hk : k * shift + window ≤ n := (lt_complete hpos).mp (hc ▸ Nat.lt_succ_self k)
      rw [Nat.succ_mul]
      omega

/-- More audio: the windows that it completes are counted from the last one before it. -/
theorem complete_add (hpos : 0 < shift) (hle : shift ≤ window) (n m : Nat) :
    complete window shift (n + m) =
      complete window shift n +
        complete window shift (n - complete window shift n * shift + m) := by
  have hrest := complete_mul_le hpos hle n
  refine eq_of_forall_lt_iff fun k => ?_
  obtain hk | hk := Nat.lt_or_ge k (complete window shift n)
  · have hfirst := (lt_complete hpos).mp hk
    rw [lt_complete hpos]
    omega
  · obtain ⟨j, rfl⟩ := Nat.exists_eq_add_of_le hk
    rw [Nat.add_lt_add_iff_left, lt_complete hpos, lt_complete hpos, Nat.add_mul]
    omega

theorem windows_add (n m : Nat) (xs : List S) :
    windows window shift (n + m) xs =
      windows window shift n xs ++ windows window shift m (xs.drop (n * shift)) := by
  induction n generalizing xs with
  | zero => simp [windows]
  | succ n ih =>
      rw [Nat.succ_add, windows, windows, ih, List.drop_drop, List.cons_append, Nat.succ_mul,
        Nat.add_comm shift]

/-- Windows that lie in a signal do not see what comes after it. -/
theorem windows_append (hle : shift ≤ window) {n : Nat} {xs : List S} (ys : List S)
    (hin : ∀ k < n, k * shift + window ≤ xs.length) :
    windows window shift n (xs ++ ys) = windows window shift n xs := by
  induction n generalizing xs with
  | zero => rfl
  | succ n ih =>
      have hfirst := hin 0 (Nat.succ_pos n)
      rw [windows, windows, List.take_append_of_le_length (by omega),
        List.drop_append_of_le_length (by omega), ih]
      intro k hk
      have hnext := hin (k + 1) (by omega)
      rw [Nat.succ_mul] at hnext
      rw [List.length_drop]
      omega

end

/-- The extractor after it took samples at the front end's rate. -/
def grow (fe : FrontEnd S) (samples : List S) (x : Extractor S) : Except Fault (Extractor S) :=
  match compute fe samples x with
  | .ok _ x => .ok x
  | .error f _ => .error f

variable {fe : FrontEnd S} {x : Extractor S}

/-- Frames are only added, and only by a front end whose settings describe frames. -/
theorem grow_inv {samples : List S} {x' : Extractor S} (h : grow fe samples x = .ok x') :
    ∃ made pending, x' = { x with frames := x.frames ++ made, pending } ∧
      (made = [] ∨ fe.check = .ok ()) := by
  rw [grow, compute] at h
  dsimp only at h
  split_ifs at h
  · cases h
    exact ⟨[], x.pending ++ samples, by simp, .inl rfl⟩
  · cases hcheck : fe.check with
    | error f =>
        rw [hcheck] at h
        cases h
    | ok _ =>
        rw [hcheck] at h
        cases h
        exact ⟨_, _, rfl, .inr rfl⟩

/-- Before the first complete window nothing is made of the samples. -/
theorem grow_of_lt {samples : List S} (h : ((x.pending ++ samples).length : Int) < fe.window) :
    grow fe samples x = .ok { x with pending := x.pending ++ samples } := by
  rw [grow, compute]
  simp only [h, if_true]

theorem grow_of_error {samples : List S} {f : Fault} (hpos : 1 ≤ fe.shift)
    (hcheck : fe.check = .error f) (h : fe.window ≤ ((x.pending ++ samples).length : Int)) :
    grow fe samples x = .error f := by
  rw [grow, compute]
  simp only [Int.not_lt.mpr h, if_false, hcheck, show fe.shift ≠ 0 by omega]

/-- The extractor once all complete windows of a signal have become frames. -/
def taken (fe : FrontEnd S) (signal : List S) (x : Extractor S) : Extractor S :=
  let count := complete fe.window.toNat fe.shift.toNat signal.length
  { x with
    frames := x.frames ++ (windows fe.window.toNat fe.shift.toNat count signal).map fe.frame
    pending := signal.drop (count * fe.shift.toNat) }

theorem grow_of_check (samples : List S) (h : fe.Overlapping) (hcheck : fe.check = .ok ()) :
    grow fe samples x = .ok (taken fe (x.pending ++ samples) x) := by
  have hpos := h.shift_pos
  have hle := h.shift_le
  generalize hs : x.pending ++ samples = signal
  by_cases hlt : (signal.length : Int) < fe.window
  · have hcount : complete fe.window.toNat fe.shift.toNat signal.length = 0 := by
      rw [complete, if_pos (by omega)]
    rw [grow_of_lt (by rwa [hs]), hs, taken]
    simp [hcount, windows]
  · have hcount : (1 + (signal.length - fe.window) / fe.shift).toNat =
        complete fe.window.toNat fe.shift.toNat signal.length := by
      have hsub : (signal.length - fe.window : Int) = (signal.length - fe.window.toNat : Nat) := by
        omega
      have hdiv : (signal.length - fe.window) / fe.shift =
          ((signal.length - fe.window.toNat) / fe.shift.toNat : Nat) := by
        rw [hsub, Int.natCast_div, Int.toNat_of_nonneg (by omega : 0 ≤ fe.shift)]
      rw [complete, if_neg (by omega), hdiv]
      generalize (signal.length - fe.window.toNat) / fe.shift.toNat = quotient
      omega
    rw [grow, compute, hs]
    simp only [hlt, if_false, hcheck, show fe.shift ≠ 0 by omega, hcount, taken]

/-- Only a front end whose settings describe no frames refuses samples. -/
theorem check_of_grow_error {samples : List S} {f : Fault} (h : fe.Overlapping)
    (hgrow : grow fe samples x = .error f) : fe.check ≠ .ok () := by
  intro hcheck
  rw [grow_of_check samples h hcheck] at hgrow
  cases hgrow

theorem taken_append (h : fe.Overlapping) (signal more : List S) :
    taken fe ((taken fe signal x).pending ++ more) (taken fe signal x) =
      taken fe (signal ++ more) x := by
  have hpos : 0 < fe.shift.toNat := by
    have hpos := h.shift_pos
    omega
  have hle : fe.shift.toNat ≤ fe.window.toNat := Int.toNat_le_toNat h.shift_le
  have hrest := complete_mul_le hpos hle signal.length
  have hin : ∀ k < complete fe.window.toNat fe.shift.toNat signal.length,
      k * fe.shift.toNat + fe.window.toNat ≤ signal.length := fun k => (lt_complete hpos).mp
  simp only [taken, List.length_append, List.length_drop]
  rw [complete_add hpos hle signal.length more.length, windows_add, windows_append hle more hin,
    List.drop_append_of_le_length hrest, List.map_append, List.append_assoc x.frames, Nat.add_mul,
    ← List.drop_drop, List.drop_append_of_le_length hrest]

/-- Samples in two pieces, or in one. -/
theorem grow_append (h : fe.Overlapping) (a b : List S) :
    grow fe (a ++ b) x = grow fe a x >>= grow fe b := by
  have hpos := h.shift_pos
  cases hcheck : fe.check with
  | ok _ =>
      rw [grow_of_check _ h hcheck, grow_of_check _ h hcheck, ← List.append_assoc, ← taken_append h]
      exact (grow_of_check _ h hcheck).symm
  | error f =>
      by_cases hlt : ((x.pending ++ a).length : Int) < fe.window
      · rw [grow_of_lt hlt]
        change grow fe (a ++ b) x = grow fe b { x with pending := x.pending ++ a }
        have hsignal : x.pending ++ (a ++ b) = x.pending ++ a ++ b :=
          (List.append_assoc _ _ _).symm
        by_cases hlt' : ((x.pending ++ a ++ b).length : Int) < fe.window
        · rw [grow_of_lt (hsignal ▸ hlt'), grow_of_lt hlt', hsignal]
        · rw [Int.not_lt] at hlt'
          rw [grow_of_error hpos hcheck (hsignal ▸ hlt'), grow_of_error hpos hcheck hlt']
      · rw [Int.not_lt] at hlt
        rw [grow_of_error hpos hcheck hlt, grow_of_error hpos hcheck]
        · rfl
        · rw [← List.append_assoc, List.length_append]
          omega

end Extractor

end SpeechTransducer.Audio
