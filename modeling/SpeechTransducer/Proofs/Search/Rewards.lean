import SpeechTransducer.Proofs.Score.Exact
import SpeechTransducer.Proofs.Search.Located

/-!
Rewards as a part of the scores. A path that stands where its tokens lead has earned the rewards of
a walk along them, and all paths to the same tokens have earned the same. Extending a path by the
same token, with and without its rewards, and merging two paths to the same tokens, by either rule,
keeps the two scores that much apart.
-/

namespace SpeechTransducer

/-- A constant in both scores is one in the score of both together. -/
theorem logAdd_add (x y c : ℝ) : logAdd (x + c) (y + c) = logAdd x y + c := by
  have hsum : Real.exp x + Real.exp y ≠ 0 := by positivity
  rw [logAdd_eq_log, logAdd_eq_log, Real.exp_add, Real.exp_add, ← add_mul,
    Real.log_mul hsum (Real.exp_ne_zero c), Real.log_exp]

namespace Search.Beam

variable {σ : Type} {net : Network σ ℝ} {graph : Option (Hotword.Graph ℝ)}
variable {path plain h : Hypothesis ℝ} {t token : Int} {x c : ℝ}

/-- The rewards for tokens, one after the other from the root. A walk that completes a phrase goes
on from the root. -/
noncomputable def earned (graph : Option (Hotword.Graph ℝ)) (tokens : List Int) : ℝ :=
  match graph with
  | some g => ((g.walk false Hotword.Graph.root tokens).map (·.1)).sum
  | none => 0

theorem earned_concat (g : Hotword.Graph ℝ) (tokens : List Int) (token : Int) :
    earned (some g) (tokens ++ [token]) =
      earned (some g) tokens + (g.releasingStep (g.arrive false tokens) token).1 := by
  rw [earned, Hotword.Graph.walk_concat, List.map_append, List.sum_append, List.map_singleton,
    List.sum_singleton]
  rfl

/-- A path with rewards, which stands where its tokens lead, and a path without them to the same
tokens. What the scores are apart is what the tokens have earned. -/
structure Factored (net : Network σ ℝ) (graph : Option (Hotword.Graph ℝ))
    (path plain : Hypothesis ℝ) : Prop where
  tokens : plain.tokens = path.tokens
  located : ∀ g ∈ graph, Located net g path
  score : path.score = plain.score + earned graph (path.tokens.drop net.contextSize.toNat)

theorem extend_located {g : Hotword.Graph ℝ} (hpath : Located net g path)
    (hextend : extend (some g) t path token x = .ok h) :
    h.score = x + if isEmission token then (g.releasingStep
      (g.arrive false (path.tokens.drop net.contextSize.toNat)) token).1 else 0 := by
  rw [extend] at hextend
  split at hextend
  · rename_i hemission
    dsimp only at hextend
    rw [hpath.contextState] at hextend
    obtain ⟨i, hindex, hextend⟩ := bind_inv hextend
    obtain rfl := index_inv hindex
    rw [← Except.ok.inj hextend, if_pos hemission]
  · rename_i hrest
    rw [← Except.ok.inj hextend, if_neg hrest]

theorem tokens_extend (hextend : extend graph t path token x = .ok h) :
    h.tokens = path.tokens ++ if isEmission token then [token] else [] := by
  obtain ⟨hemission, _, _, rfl, -⟩ | ⟨hrest, rfl⟩ := extend_inv hextend
  · rw [hemission, if_pos rfl]
  · rw [hrest, if_neg Bool.false_ne_true, List.append_nil]

/-- Without a graph every extension goes through, and earns nothing. -/
theorem extend_unrewarded (path : Hypothesis ℝ) (t token : Int) (x : ℝ) :
    ∃ h, extend none t path token x = .ok h ∧ h.score = x := by
  rw [extend]
  split
  · exact ⟨_, rfl, add_zero x⟩
  · exact ⟨_, rfl, add_zero x⟩

theorem Factored.extend (hpair : Factored net graph path plain)
    (hscore : c = x + earned graph (path.tokens.drop net.contextSize.toNat))
    (hextend : extend graph t path token c = .ok h) :
    ∃ h', Beam.extend none t plain token x = .ok h' ∧ Factored net graph h h' := by
  obtain ⟨h', hplain, hx⟩ := extend_unrewarded plain t token x
  refine ⟨h', hplain, ?_⟩
  have htokens := tokens_extend hextend
  refine ⟨?_, ?_, ?_⟩
  · rw [htokens, tokens_extend hplain, hpair.tokens]
  · rintro g rfl
    exact (hpair.located g rfl).extend hextend
  · cases graph with
    | none =>
        obtain ⟨_, hsame, hc⟩ := extend_unrewarded path t token c
        obtain rfl := Except.ok.inj (hextend.symm.trans hsame)
        rw [hc, hscore, hx]
        rfl
    | some g =>
        have hlocated := hpair.located g rfl
        rw [extend_located hlocated hextend, hscore, hx, htokens,
          List.drop_append_of_le_length hlocated.le]
        split
        · rw [earned_concat, add_assoc]
        · rw [List.append_nil, add_zero]

theorem Factored.combine (rule : MergeRule) {old new oldPlain newPlain : Hypothesis ℝ}
    (hsame : old.tokens = new.tokens) (hold : Factored net graph old oldPlain)
    (hnew : Factored net graph new newPlain) :
    Factored net graph (Hypotheses.combine rule old new)
      (Hypotheses.combine rule oldPlain newPlain) where
  tokens := hold.tokens
  located g hg := Located.combine hsame (hold.located g hg) (hnew.located g hg)
  score := by
    have hnewScore := hnew.score
    rw [← hsame] at hnewScore
    cases rule with
    | logSumExp =>
        change logAdd old.score new.score = logAdd oldPlain.score newPlain.score + _
        rw [hold.score, hnewScore, logAdd_add]
        rfl
    | best =>
        change (Hypotheses.stronger old new).score =
          (Hypotheses.stronger oldPlain newPlain).score + earned graph (old.tokens.drop _)
        simp only [Hypotheses.stronger, hold.score, hnewScore, add_lt_add_iff_right]
        split
        · exact hnewScore
        · exact hold.score

theorem Factored.addTo (rule : MergeRule) {entries plains : List (Hypothesis ℝ)}
    (hpair : Factored net graph path plain)
    (hall : List.Forall₂ (Factored net graph) entries plains) :
    List.Forall₂ (Factored net graph) (Hypotheses.addTo rule path entries)
      (Hypotheses.addTo rule plain plains) := by
  induction hall with
  | nil => exact .cons hpair .nil
  | @cons old oldPlain rest plains hold hrest ih =>
      rw [Hypotheses.addTo, Hypotheses.addTo, hold.tokens, hpair.tokens]
      split
      · rename_i hsame
        exact .cons (hold.combine rule hsame hpair) hrest
      · exact .cons hold ih

end Search.Beam

end SpeechTransducer
