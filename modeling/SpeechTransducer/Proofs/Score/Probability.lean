import Mathlib.Analysis.SpecialFunctions.Log.ENNRealLogExp
import SpeechTransducer.Proofs.Score.Exact

/-!
Probabilities of scores. No operation on exact scores makes probability: adding two scores
multiplies their probabilities, normalized logits have one together, and two merged paths have what
the two had. On extended real numbers this holds of infinite logits too, and a path may be
impossible; there the difference of two equal infinities is that of an impossible path.
-/

namespace SpeechTransducer

open scoped ENNReal

noncomputable instance : LogScale EReal where
  exp x := (EReal.exp x : EReal)
  log x := ENNReal.log x.toENNReal
  log1p x := ENNReal.log (1 + x).toENNReal
  isImpossible x := decide (x = ⊥)
  single x := x

/-- Probabilities of scores that no operation of the search adds to. -/
structure Conserving {S : Type} [Zero S] [Add S] [Sub S] [BEq S] [LT S] [DecidableLT S]
    [LogScale S] (w : S → ℝ≥0∞) : Prop where
  zero : w 0 = 1
  add : ∀ x y, w (x + y) = w x * w y
  single : ∀ x, w (LogScale.single x) = w x
  logAdd_le : ∀ x y, w (logAdd x y) ≤ w x + w y
  sum_logSoftmax_le : ∀ row normalized, logSoftmax row = some normalized →
    (normalized.map w).sum ≤ 1

theorem exp_logAdd (x y : EReal) : EReal.exp (logAdd x y) = EReal.exp x + EReal.exp y := by
  have htaken (x y : EReal) (hx : x ≠ ⊥) :
      EReal.exp (x + LogScale.log1p (LogScale.exp (y - x))) = EReal.exp x + EReal.exp y := by
    have hlog1p : EReal.exp (LogScale.log1p (LogScale.exp (y - x))) =
        1 + EReal.exp y * (EReal.exp x)⁻¹ := by
      change EReal.exp (ENNReal.log (1 + (EReal.exp (y - x) : EReal)).toENNReal) = _
      rw [ENNReal.exp_log, ← EReal.coe_ennreal_one, ← EReal.coe_ennreal_add, EReal.toENNReal_coe,
        sub_eq_add_neg, EReal.exp_add, EReal.exp_neg]
    have hzero : EReal.exp x ≠ 0 := EReal.exp_eq_zero_iff.not.mpr hx
    rw [EReal.exp_add, hlog1p, mul_add, mul_one]
    by_cases htop : EReal.exp x = ⊤
    · rw [htop, top_add, top_add]
    · rw [mul_left_comm, ENNReal.mul_inv_cancel hzero htop, mul_one]
  rw [logAdd]
  split_ifs with hx hy hlt
  · obtain rfl : x = ⊥ := of_decide_eq_true hx
    rw [EReal.exp_bot, zero_add]
  · obtain rfl : y = ⊥ := of_decide_eq_true hy
    rw [EReal.exp_bot, add_zero]
  · rw [add_comm (EReal.exp x)]
    exact htaken y x fun hbot => hy (decide_eq_true hbot)
  · exact htaken x y fun hbot => hx (decide_eq_true hbot)

/-- On every branch, whichever of the scores is the larger one, impossible or infinite. -/
theorem logAdd_eq_log_add_exp (x y : EReal) :
    logAdd x y = ENNReal.log (EReal.exp x + EReal.exp y) := by
  rw [← exp_logAdd, EReal.log_exp]

theorem foldl_exp (xs : List EReal) :
    (xs.map fun x => LogScale.single (LogScale.exp x)).foldl (· + ·) 0 =
      (((xs.map EReal.exp).sum : ℝ≥0∞) : EReal) := by
  rw [← List.sum_eq_foldl]
  induction xs with
  | nil => simp
  | cons x xs ih =>
      rw [List.map_cons, List.sum_cons, ih, List.map_cons, List.sum_cons, EReal.coe_ennreal_add]
      rfl

/-- Normalizing takes the logarithm of all probabilities off, wherever the logits are shifted. -/
theorem logSoftmax_inv {row normalized : List EReal} (h : logSoftmax row = some normalized) :
    ∃ shifted : List EReal,
      normalized = shifted.map fun x => x - ENNReal.log (shifted.map EReal.exp).sum := by
  obtain ⟨m, -, rfl⟩ := Option.map_eq_some_iff.mp h
  refine ⟨row.map fun x => LogScale.single (x - m), ?_⟩
  generalize (row.map fun x => LogScale.single (x - m)) = shifted
  have hlog : LogScale.single (LogScale.log (LogScale.single
      ((shifted.map fun x => LogScale.single (LogScale.exp x)).foldl (· + ·) 0))) =
        ENNReal.log (shifted.map EReal.exp).sum := by
    rw [foldl_exp]
    exact congrArg ENNReal.log (EReal.toENNReal_coe)
  exact congrArg (fun total => shifted.map fun x => LogScale.single (x - total)) hlog

theorem sum_exp_logSoftmax_le {row normalized : List EReal}
    (h : logSoftmax row = some normalized) : (normalized.map EReal.exp).sum ≤ 1 := by
  obtain ⟨shifted, rfl⟩ := logSoftmax_inv h
  generalize htotal : (shifted.map EReal.exp).sum = total
  calc ((shifted.map fun x => x - ENNReal.log total).map EReal.exp).sum
      = (shifted.map fun x => EReal.exp x * total⁻¹).sum := by
        rw [List.map_map]
        refine congrArg List.sum (List.map_congr_left fun x _ => ?_)
        rw [Function.comp_apply, sub_eq_add_neg, EReal.exp_add, EReal.exp_neg, ENNReal.exp_log]
    _ = total * total⁻¹ := by rw [List.sum_map_mul_right, htotal]
    _ ≤ 1 := ENNReal.mul_inv_le_one _

theorem conserving_exp : Conserving EReal.exp where
  zero := EReal.exp_zero
  add := EReal.exp_add
  single _ := rfl
  logAdd_le x y := (exp_logAdd x y).le
  sum_logSoftmax_le _ _ := sum_exp_logSoftmax_le

theorem sum_exp_coe (xs : List ℝ) :
    (xs.map fun x : ℝ => EReal.exp x).sum = ENNReal.ofReal (xs.map Real.exp).sum := by
  induction xs with
  | nil => simp
  | cons x xs ih =>
      have hrest : 0 ≤ (xs.map Real.exp).sum := by
        refine List.sum_nonneg fun y hy => ?_
        obtain ⟨x, -, rfl⟩ := List.mem_map.mp hy
        exact (Real.exp_pos x).le
      rw [List.map_cons, List.sum_cons, ih, List.map_cons, List.sum_cons,
        ENNReal.ofReal_add (Real.exp_pos x).le hrest, EReal.exp_coe]

/-- Finite scores are the special case in which normalized logits have all of the probability. -/
theorem conserving_exp_coe : Conserving fun x : ℝ => EReal.exp x where
  zero := EReal.exp_zero
  add x y := by rw [EReal.coe_add, EReal.exp_add]
  single _ := rfl
  logAdd_le x y := by
    have hpos : 0 < Real.exp x + Real.exp y := by positivity
    rw [logAdd_eq_log, EReal.exp_coe, Real.exp_log hpos,
      ENNReal.ofReal_add (Real.exp_pos x).le (Real.exp_pos y).le, EReal.exp_coe, EReal.exp_coe]
  sum_logSoftmax_le row normalized h := by
    have hne : row ≠ [] := by
      rintro rfl
      cases h
    have hpos := sum_exp_pos hne
    rw [logSoftmax_eq_some hne] at h
    obtain rfl := Option.some.inj h
    have hshare (x : ℝ) : Real.exp (x - Real.log (row.map Real.exp).sum) =
        Real.exp x * ((row.map Real.exp).sum)⁻¹ := by
      rw [Real.exp_sub, Real.exp_log hpos, div_eq_mul_inv]
    rw [sum_exp_coe, List.map_map]
    simp only [Function.comp_def, hshare]
    rw [List.sum_map_mul_right, mul_inv_cancel₀ hpos.ne', ENNReal.ofReal_one]

end SpeechTransducer
