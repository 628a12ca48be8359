import Mathlib.Analysis.SpecialFunctions.Log.Basic
import SpeechTransducer.Endpoint
import SpeechTransducer.Score

/-!
Exact scores. On the real numbers nothing is rounded and no path is impossible, and taking out the
largest score first makes no difference: two paths merge into the logarithm of the sum of their
probabilities, and normalized logits are what they have above the logarithm of the whole sum. Times
are exact too, however many steps they take.
-/

namespace SpeechTransducer

noncomputable instance : LogScale ℝ where
  exp := Real.exp
  log := Real.log
  log1p x := Real.log (1 + x)
  isImpossible _ := false
  single x := x

noncomputable instance : Countable ℝ where
  times? n x := some (n * x)

noncomputable instance instHMulIntReal : HMul Int ℝ ℝ where
  hMul n x := (n : ℝ) * x

theorem timeOf_eq_ok (n : Int) (x : ℝ) : timeOf n x = .ok ((n : ℝ) * x) := rfl

theorem logAdd_eq_log (x y : ℝ) : logAdd x y = Real.log (Real.exp x + Real.exp y) := by
  have htaken (x y : ℝ) :
      x + Real.log (1 + Real.exp (y - x)) = Real.log (Real.exp x + Real.exp y) := by
    have hpos : 0 < 1 + Real.exp (y - x) := by positivity
    calc x + Real.log (1 + Real.exp (y - x))
        = Real.log (Real.exp x) + Real.log (1 + Real.exp (y - x)) := by rw [Real.log_exp]
      _ = Real.log (Real.exp x * (1 + Real.exp (y - x))) :=
          (Real.log_mul (Real.exp_ne_zero x) hpos.ne').symm
      _ = Real.log (Real.exp x + Real.exp y) := by
          rw [mul_add, mul_one, ← Real.exp_add, add_sub_cancel]
  have hcases : logAdd x y = if x < y then y + Real.log (1 + Real.exp (x - y))
      else x + Real.log (1 + Real.exp (y - x)) := rfl
  rw [hcases]
  split
  · rw [htaken, add_comm]
  · exact htaken x y

theorem sum_exp_pos {row : List ℝ} (hne : row ≠ []) : 0 < (row.map Real.exp).sum := by
  refine List.sum_pos _ ?_ (by simpa using hne)
  intro y hy
  obtain ⟨x, -, rfl⟩ := List.mem_map.mp hy
  exact Real.exp_pos x

/-- The logarithm of the probability that logits give to a token. -/
noncomputable def logProbability (logits : List ℝ) (token : Nat) : ℝ :=
  logits.getD token 0 - Real.log (logits.map Real.exp).sum

theorem logSoftmax_eq_some {row : List ℝ} (hne : row ≠ []) :
    logSoftmax row = some (row.map fun x => x - Real.log (row.map Real.exp).sum) := by
  obtain ⟨m, hm⟩ : ∃ m, rowPeak row = some m := by
    obtain ⟨x, xs, rfl⟩ := List.exists_cons_of_ne_nil hne
    exact ⟨_, rfl⟩
  have hshifted : (row.map fun x => Real.exp (x - m)).foldl (· + ·) 0 =
      (row.map Real.exp).sum * Real.exp (-m) := by
    rw [← List.sum_eq_foldl, ← List.sum_map_mul_right]
    simp only [Real.exp_add, sub_eq_add_neg]
  have hlog : Real.log ((row.map Real.exp).sum * Real.exp (-m)) =
      Real.log (row.map Real.exp).sum - m := by
    rw [Real.log_mul (sum_exp_pos hne).ne' (Real.exp_ne_zero _), Real.log_exp, sub_eq_add_neg]
  simp only [logSoftmax, hm, Option.map_some, LogScale.single, LogScale.exp, LogScale.log,
    List.map_map, Function.comp_def, hshifted, hlog]
  congr 2
  funext x
  ring

end SpeechTransducer
