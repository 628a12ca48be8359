import Mathlib.Algebra.BigOperators.Group.Finset.Sigma
import Mathlib.Algebra.Tropical.BigOperators
import Mathlib.Algebra.Order.Monoid.Unbundled.WithTop
import SpeechTransducer.Proofs.Score.Exact
import SpeechTransducer.Proofs.Search.Beam

/-!
Alignments, and how the scores of several of them combine. An alignment gives a token of the
vocabulary to every frame. Two rules merge the scores of paths to the same tokens: the larger one
stays, or the probabilities are added up. Both are the addition of a semiring in which the scores of
successive tokens multiply.
-/

namespace SpeechTransducer.Search.Beam

variable {σ R : Type}

section Alignments

/-- The tokens that an alignment emits. -/
def spelled (a : List Nat) : List Int := (a.map fun v : Nat => (v : Int)).filter isEmission

theorem spelled_cons (v : Nat) (a : List Nat) : spelled (v :: a) = spelled [v] ++ spelled a := by
  rw [spelled, List.map_cons, ← List.singleton_append, List.filter_append]
  rfl

/-- The sequences of tokens of a vocabulary, one for each of so many frames. -/
def alignments (vocabulary : Nat) : Nat → Finset (List Nat)
  | 0 => {[]}
  | frames + 1 =>
    (Finset.range vocabulary ×ˢ alignments vocabulary frames).image fun p => p.1 :: p.2

variable {vocabulary frames : Nat}

theorem mem_alignments_succ {a : List Nat} :
    a ∈ alignments vocabulary (frames + 1) ↔
      ∃ v < vocabulary, ∃ rest ∈ alignments vocabulary frames, v :: rest = a := by
  rw [alignments, Finset.mem_image]
  simp only [Finset.mem_product, Finset.mem_range, Prod.exists, and_assoc, exists_and_left]

theorem mem_alignments {a : List Nat} :
    a ∈ alignments vocabulary frames ↔ a.length = frames ∧ ∀ v ∈ a, v < vocabulary := by
  induction frames generalizing a with
  | zero => simp +contextual [alignments]
  | succ frames ih =>
      rw [mem_alignments_succ]
      cases a with
      | nil => simp
      | cons v a => simp [ih, and_left_comm]

theorem sum_alignments_succ [AddCommMonoid R] (G : List Nat → R) :
    ∑ a ∈ alignments vocabulary (frames + 1), G a =
      ∑ v ∈ Finset.range vocabulary, ∑ a ∈ alignments vocabulary frames, G (v :: a) := by
  rw [alignments, Finset.sum_image, Finset.sum_product]
  rintro ⟨v, a⟩ - ⟨v', a'⟩ - heq
  obtain ⟨rfl, rfl⟩ := List.cons.inj heq
  rfl

/-- The score of an alignment after a path with some tokens: at every frame, the logarithm of the
probability of its token given the tokens before. -/
noncomputable def alignmentScore (net : Network σ ℝ) (f : List Int → List ℝ)
    (j : List ℝ → List ℝ → List ℝ) : List Int → List (List ℝ) → List Nat → ℝ
  | tokens, frame :: frames, v :: a =>
    logProbability (j frame (f (net.context tokens))) v +
      alignmentScore net f j (tokens ++ spelled [v]) frames a
  | _, _, _ => 0

/-- What scores of alignments are together under a rule. -/
def Combined (rule : MergeRule) (alignments : Finset (List Nat)) (score : List Nat → ℝ)
    (x : ℝ) : Prop :=
  match rule with
  | .best => IsGreatest (score '' alignments) x
  | .logSumExp => x = Real.log (∑ a ∈ alignments, Real.exp (score a))

/-- The blanks that every path starts with. -/
def padding (net : Network σ ℝ) : List Int := List.replicate net.contextSize.toNat blankToken

end Alignments

section Weights

variable [CommSemiring R]

/-- Weights of scores in a semiring: scores that add up multiply, and merged paths are added. -/
structure Weighs (rule : MergeRule) (w : ℝ → R) : Prop where
  zero : w 0 = 1
  add : ∀ x y, w (x + y) = w x * w y
  combine : ∀ old new : Hypothesis ℝ,
    w (Hypotheses.combine rule old new).score = w old.score + w new.score

theorem weighs_exp : Weighs .logSumExp Real.exp where
  zero := Real.exp_zero
  add := Real.exp_add
  combine old new := by
    have hpos : 0 < Real.exp old.score + Real.exp new.score := by positivity
    change Real.exp (logAdd old.score new.score) = _
    rw [logAdd_eq_log, Real.exp_log hpos]

/-- In the tropical semiring, addition keeps the smaller one of two losses. -/
def loss (x : ℝ) : Tropical (WithTop ℝ) := Tropical.trop ((-x : ℝ) : WithTop ℝ)

theorem weighs_loss : Weighs .best loss where
  zero := by
    rw [loss, neg_zero, WithTop.coe_zero, Tropical.trop_zero]
  add x y := by
    rw [loss, neg_add, WithTop.coe_add, Tropical.trop_add]
    rfl
  combine old new := by
    have hlarger : (Hypotheses.combine .best old new).score = max old.score new.score := by
      change (Hypotheses.stronger old new).score = _
      rw [Hypotheses.stronger]
      split
      · exact (max_eq_right (le_of_lt ‹_›)).symm
      · exact (max_eq_left (not_lt.mp ‹_›)).symm
    rw [hlarger, loss, ← min_neg_neg, WithTop.coe_min, Tropical.trop_min]
    rfl

theorem isGreatest_of_loss {s : Finset (List Nat)} {score : List Nat → ℝ} {x : ℝ}
    (h : loss x = ∑ a ∈ s, loss (score a)) : IsGreatest (score '' s) x := by
  have hinf : ((-x : ℝ) : WithTop ℝ) = s.inf fun a => ((-score a : ℝ) : WithTop ℝ) := by
    have huntrop := congrArg Tropical.untrop h
    rwa [Finset.untrop_sum'] at huntrop
  have hne : s.Nonempty := by
    rw [Finset.nonempty_iff_ne_empty]
    rintro rfl
    exact WithTop.coe_ne_top hinf
  constructor
  · obtain ⟨a, ha, heq⟩ := Finset.exists_mem_eq_inf s hne fun a => ((-score a : ℝ) : WithTop ℝ)
    refine ⟨a, ha, ?_⟩
    have hsame : (-x : ℝ) = -score a := WithTop.coe_injective (hinf.trans heq)
    exact (neg_injective hsame).symm
  · rintro y ⟨a, ha, rfl⟩
    have hle : ((-x : ℝ) : WithTop ℝ) ≤ ((-score a : ℝ) : WithTop ℝ) := hinf ▸ Finset.inf_le ha
    exact neg_le_neg_iff.mp (WithTop.coe_le_coe.mp hle)

/-- The weights of paths, summed up with factors for their tokens. -/
def total (w : ℝ → R) (F : List Int → R) (entries : List (Hypothesis ℝ)) : R :=
  (entries.map fun h => F h.tokens * w h.score).sum

variable {rule : MergeRule} {w : ℝ → R} {F : List Int → R} {new entries : List (Hypothesis ℝ)}

/-- Merging keeps the sum. -/
theorem total_addTo (hw : Weighs rule w) (h : Hypothesis ℝ) :
    total w F (Hypotheses.addTo rule h entries) = total w F entries + F h.tokens * w h.score := by
  induction entries with
  | nil => simp [Hypotheses.addTo, total]
  | cons old rest ih =>
      rw [Hypotheses.addTo]
      split
      · rename_i hsame
        have htokens : (Hypotheses.combine rule old h).tokens = old.tokens := rfl
        simp only [total, List.map_cons, List.sum_cons, htokens, hw.combine, hsame]
        ring
      · simp only [total, List.map_cons, List.sum_cons] at ih ⊢
        rw [ih, add_assoc]

theorem total_ofList (hw : Weighs rule w) :
    total w F (Hypotheses.ofList rule new).entries = total w F new := by
  have hadd (hs : Hypotheses ℝ) (hrule : hs.rule = rule) :
      total w F (new.foldl Hypotheses.add hs).entries = total w F hs.entries + total w F new := by
    induction new generalizing hs with
    | nil => simp [total]
    | cons h rest ih =>
        rw [List.foldl_cons, ih (hs.add h) hrule, Hypotheses.add, hrule, total_addTo hw]
        simp only [total, List.map_cons, List.sum_cons, add_assoc]
  rw [Hypotheses.ofList, hadd _ rfl]
  simp [total]

/-- The weight of a path alone. -/
theorem total_single {h : Hypothesis ℝ} (hnodup : (entries.map (·.tokens)).Nodup)
    (hh : h ∈ entries) :
    total w (fun tokens => if tokens = h.tokens then 1 else 0) entries = w h.score := by
  induction entries with
  | nil => cases hh
  | cons first rest ih =>
      rw [List.map_cons, List.nodup_cons] at hnodup
      have hrest (g : Hypothesis ℝ) (hg : g ∈ rest) : g.tokens ≠ first.tokens :=
        fun heq => hnodup.1 (heq ▸ List.mem_map_of_mem hg)
      simp only [total, List.map_cons, List.sum_cons] at ih ⊢
      obtain rfl | hin := List.mem_cons.mp hh
      · have hzero : (rest.map fun g => (if g.tokens = h.tokens then 1 else 0) * w g.score).sum =
            0 := by
          apply List.sum_eq_zero
          intro x hx
          obtain ⟨g, hg, rfl⟩ := List.mem_map.mp hx
          rw [if_neg (hrest g hg), zero_mul]
        rw [hzero, if_pos rfl, one_mul, add_zero]
      · rw [ih hnodup.2 hin, if_neg (hrest h hin).symm, zero_mul, zero_add]

end Weights

end SpeechTransducer.Search.Beam
