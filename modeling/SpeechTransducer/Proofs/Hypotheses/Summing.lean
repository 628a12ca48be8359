import SpeechTransducer.Proofs.Hypotheses.Strongest
import SpeechTransducer.Proofs.Score.Probability

/-!
Probabilities of merged paths. Where scores are merged into the logarithm of the summed
probabilities, a container gives every token sequence the probability of all paths with these tokens
together. A sum does not depend on the order of the paths, and neither do the scores; the order of
the token sequences does.
-/

namespace SpeechTransducer.Hypotheses

section

variable {S : Type} [Add S] [Sub S] [LT S] [DecidableLT S] [LogScale S]
variable {rule : MergeRule} {new paths : List (Hypothesis S)} {e : Hypothesis S}

/-- What a container has for a token sequence are the paths with these tokens. -/
theorem get?_ofList (rule : MergeRule) (new : List (Hypothesis S)) (tokens : List Int) :
    (ofList rule new).get? tokens = merged rule (new.filter fun h => h.tokens = tokens) := by
  rw [get?]
  cases hfind : (ofList rule new).entries.find? fun e => e.tokens == tokens with
  | some e =>
      have hsame := List.find?_some hfind
      obtain rfl : e.tokens = tokens := eq_of_beq hsame
      exact (groups_ofList.entry e (List.mem_of_find?_eq_some hfind)).symm
  | none =>
      have hnone : new.filter (fun h => h.tokens = tokens) = [] := by
        rw [List.filter_eq_nil_iff]
        intro h hh heq
        obtain ⟨e, ⟨he, hsame⟩, -⟩ : ∃! e, e ∈ (ofList rule new).entries ∧ e.tokens = h.tokens :=
          groups_ofList.once h hh
        have heq : e.tokens = tokens := hsame.trans (of_decide_eq_true heq)
        exact List.find?_eq_none.mp hfind e he (beq_of_eq heq)
      rw [hnone, merged]

/-- Weights that scores add up are added up by merging. -/
theorem weight_merged {M : Type} [AddCommMonoid M] {w : S → M}
    (hadd : ∀ x y, w (logAdd x y) = w x + w y) (hmerged : merged .logSumExp paths = some e) :
    w e.score = (paths.map fun h => w h.score).sum := by
  refine merged_induction (P := fun paths e => w e.score = (paths.map fun h => w h.score).sum)
    ?_ ?_ hmerged
  · exact fun h => (add_zero _).symm
  · intro paths e h _ ih
    calc w (combine .logSumExp e h).score
        = w e.score + w h.score := hadd e.score h.score
      _ = ((paths ++ [h]).map fun h => w h.score).sum := by simp [ih]

end

/-- The logarithm of the probability of some paths together. -/
noncomputable def logTotal (paths : List (Hypothesis EReal)) : EReal :=
  ENNReal.log (paths.map fun h => EReal.exp h.score).sum

theorem score_merged {paths : List (Hypothesis EReal)} {e : Hypothesis EReal}
    (hmerged : merged .logSumExp paths = some e) : e.score = logTotal paths := by
  rw [logTotal, ← weight_merged exp_logAdd hmerged, EReal.log_exp]

theorem map_score_merged (paths : List (Hypothesis EReal)) :
    (merged .logSumExp paths).map (·.score) =
      if paths.isEmpty then none else some (logTotal paths) := by
  cases paths with
  | nil => rfl
  | cons first rest => exact congrArg some (score_merged rfl)

theorem map_score_merged_perm {paths paths' : List (Hypothesis EReal)} (h : paths.Perm paths') :
    (merged .logSumExp paths).map (·.score) = (merged .logSumExp paths').map (·.score) := by
  have htotal : logTotal paths = logTotal paths' := congrArg ENNReal.log (h.map _).sum_eq
  rw [map_score_merged, map_score_merged, htotal, h.isEmpty_eq]

/-- Exact scores that may be impossible: two of them are added up to the logarithm of the summed
probabilities, and every token sequence has that of all paths that were added with it. The order of
the additions changes the order of the token sequences, which is that of their first additions, and
no score. -/
theorem entries_ofList_logSumExp {new new' : List (Hypothesis EReal)} (hperm : new'.Perm new) :
    (∀ x y : EReal, logAdd x y = ENNReal.log (EReal.exp x + EReal.exp y)) ∧
      (ofList .logSumExp new').entries.map (·.tokens) = (new'.map (·.tokens)).eraseDups ∧
      (∀ e ∈ (ofList .logSumExp new').entries,
        e.score = logTotal (new'.filter fun h => h.tokens = e.tokens)) ∧
      ∀ tokens, ((ofList .logSumExp new').get? tokens).map (·.score) =
        ((ofList .logSumExp new).get? tokens).map (·.score) := by
  refine ⟨logAdd_eq_log_add_exp, tokens_ofList .logSumExp new', ?_, fun tokens => ?_⟩
  · exact fun e he => score_merged (groups_ofList.entry e he)
  · rw [get?_ofList, get?_ofList]
    exact map_score_merged_perm (hperm.filter _)

/-- An impossible path between two that are certain, and another one to other tokens. -/
theorem entries_ofList_logSumExp_impossible :
    let certain : Hypothesis EReal := { tokens := [0, 5], score := 0 }
    let impossible : Hypothesis EReal := { tokens := [0, 5], score := ⊥ }
    let other : Hypothesis EReal := { tokens := [0, 7], score := ⊥ }
    let new := [certain, impossible, certain, other]
    let hs := ofList .logSumExp [other, certain, impossible, certain]
    [other, certain, impossible, certain].Perm new ∧
      hs.entries.map (·.tokens) = [[0, 7], [0, 5]] ∧
      (∀ e ∈ hs.entries, e.tokens = [0, 5] → e.score = ENNReal.log 2) ∧
      ∀ tokens, (hs.get? tokens).map (·.score) =
        ((ofList .logSumExp new).get? tokens).map (·.score) := by
  intro certain impossible other new hs
  have hperm : [other, certain, impossible, certain].Perm new := List.reverse_perm new
  have hfilter : [other, certain, impossible, certain].filter (fun h => h.tokens = [0, 5]) =
      [certain, impossible, certain] := rfl
  have htotal : logTotal [certain, impossible, certain] = ENNReal.log 2 := by
    have hsum : ([certain, impossible, certain].map fun h => EReal.exp h.score).sum = 2 := by
      simp [certain, impossible, one_add_one_eq_two]
    rw [logTotal, hsum]
  obtain ⟨-, htokens, hscores, hsame⟩ := entries_ofList_logSumExp hperm
  refine ⟨hperm, htokens, fun e he heq => ?_, hsame⟩
  rw [hscores e he, heq, hfilter, htotal]

end SpeechTransducer.Hypotheses
