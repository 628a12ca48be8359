import Mathlib.Algebra.BigOperators.Group.List.Basic
import Mathlib.Data.List.DropRight
import SpeechTransducer.Proofs.Hotword.Ending
import SpeechTransducer.Proofs.Score.Ranked

/-!
What phrases with rewards are worth, read off the list of phrases. The reward for a token is the
largest one of the phrases that share the sequence up to it. What a node has collected is the sum
of the rewards on its way as they were when the last phrase passed through it.
-/

namespace SpeechTransducer.Hotword

variable {S : Type}

/-- The phrases up to the last one that has a beginning. -/
def upTo (u : List Int) (phrases : List (List Int × S)) : List (List Int × S) :=
  phrases.rdropWhile fun p => !decide (u <+: p.1)

section

variable [LT S] [DecidableLT S]

/-- The larger of a reward and an older one. -/
def raise (score old : S) : S := if score < old then old else score

/-- The reward for the last token of a beginning: the largest one of the phrases that begin so. -/
def reward? (phrases : List (List Int × S)) (u : List Int) : Option S :=
  phrases.foldl (fun best p => if u <+: p.1 then some (best.elim p.2 (raise p.2)) else best) none

/-- The rewards for the tokens of a sequence, one after the other. -/
def tokenRewards [Zero S] (phrases : List (List Int × S)) (u : List Int) : List S :=
  (List.range u.length).map fun k => (reward? phrases (u.take (k + 1))).getD 0

/-- The sum of the rewards on the way to a beginning, as the last phrase with it left them. -/
def collected [Zero S] [Add S] (phrases : List (List Int × S)) (u : List Int) : S :=
  (tokenRewards (upTo u phrases) u).foldl (· + ·) 0

end

variable {phrases : List (List Int × S)} {p u : List Int} {s : S}

theorem upTo_concat (h : u <+: p) : upTo u (phrases ++ [(p, s)]) = phrases ++ [(p, s)] := by
  rw [upTo, List.rdropWhile_concat_neg]
  simp [h]

theorem upTo_concat_of_not (h : ¬u <+: p) : upTo u (phrases ++ [(p, s)]) = upTo u phrases := by
  exact List.rdropWhile_concat_pos _ _ _ (by simp [h])

section

variable [LT S] [DecidableLT S]

theorem reward?_concat : reward? (phrases ++ [(p, s)]) u =
    if u <+: p then some ((reward? phrases u).elim s (raise s)) else reward? phrases u := by
  simp only [reward?, List.foldl_append, List.foldl_cons, List.foldl_nil]

theorem reward?_eq_none (h : ∀ p ∈ phrases, ¬u <+: p.1) : reward? phrases u = none := by
  induction phrases using List.reverseRecOn with
  | nil => rfl
  | append_singleton phrases p ih =>
      rw [reward?_concat, if_neg (h p (by simp))]
      exact ih fun q hq => h q (by simp [hq])

/-- A longer last phrase changes the reward of its end only. -/
theorem reward?_extend {t : Int} (h : u ≠ p ++ [t]) :
    reward? (phrases ++ [(p ++ [t], s)]) u = reward? (phrases ++ [(p, s)]) u := by
  simp only [reward?_concat, List.prefix_concat_iff, h, false_or]

theorem reward?_extend_self {t : Int} :
    reward? (phrases ++ [(p ++ [t], s)]) (p ++ [t]) =
      some ((reward? phrases (p ++ [t])).elim s (raise s)) := by
  rw [reward?_concat, if_pos (List.prefix_refl _)]

/-- The empty phrase is worth nothing. -/
theorem reward?_concat_nil (h : u ≠ []) : reward? (phrases ++ [([], s)]) u = reward? phrases u := by
  rw [reward?_concat, if_neg (by simpa using h)]

variable [Zero S]

theorem tokenRewards_concat (t : Int) :
    tokenRewards phrases (u ++ [t]) =
      tokenRewards phrases u ++ [(reward? phrases (u ++ [t])).getD 0] := by
  simp only [tokenRewards, List.length_append, List.length_cons, List.length_nil, Nat.zero_add,
    List.range_succ, List.map_append, List.map_cons, List.map_nil]
  congr 1
  · apply List.map_congr_left
    intro k hk
    rw [List.take_append_of_le_length (by simpa [Nat.succ_le_iff] using hk)]
  · rw [List.take_of_length_le (by simp)]

theorem tokenRewards_congr {qs : List (List Int × S)}
    (h : ∀ v, v ≠ [] → v <+: u → reward? phrases v = reward? qs v) :
    tokenRewards phrases u = tokenRewards qs u := by
  apply List.map_congr_left
  intro k hk
  rw [h _ _ (List.take_prefix _ _)]
  intro hnil
  have hlen := congrArg List.length hnil
  simp only [List.mem_range] at hk
  simp only [List.length_take, List.length_nil] at hlen
  omega

/-- The rewards on the way to the last phrase stay when it gets longer. -/
theorem tokenRewards_extend (h : u <+: p) (t : Int) :
    tokenRewards (phrases ++ [(p ++ [t], s)]) u = tokenRewards (phrases ++ [(p, s)]) u := by
  apply tokenRewards_congr
  intro v _ hv
  apply reward?_extend
  intro heq
  subst heq
  have hlen := (hv.trans h).length_le
  rw [List.length_append, List.length_singleton] at hlen
  omega

variable [Add S]

theorem collected_nil : collected phrases [] = 0 := rfl

/-- A longer last phrase leaves what other sequences have collected as it is. -/
theorem collected_extend {t : Int} (h : u ≠ p ++ [t]) :
    collected (phrases ++ [(p ++ [t], s)]) u = collected (phrases ++ [(p, s)]) u := by
  unfold collected
  by_cases hu : u <+: p
  · rw [upTo_concat hu, upTo_concat (hu.trans (List.prefix_append _ _))]
    rw [tokenRewards_extend hu]
  · rw [upTo_concat_of_not hu, upTo_concat_of_not]
    simp [List.prefix_concat_iff, h, hu]

/-- Its end collects the reward for its token on top of what there was before. -/
theorem collected_extend_self {t : Int} :
    collected (phrases ++ [(p ++ [t], s)]) (p ++ [t]) =
      collected (phrases ++ [(p, s)]) p + (reward? phrases (p ++ [t])).elim s (raise s) := by
  simp only [collected, upTo_concat (List.prefix_refl _), tokenRewards_concat,
    tokenRewards_extend (List.prefix_refl _), reward?_extend_self, List.foldl_append,
    List.foldl_cons, List.foldl_nil, Option.getD_some]

theorem collected_concat_nil : collected (phrases ++ [([], s)]) u = collected phrases u := by
  by_cases h : u = []
  · rw [h, collected_nil, collected_nil]
  · rw [collected, collected, upTo_concat_of_not (by simpa using h)]

end

/-- Nothing is left out that a beginning depends on: after the last phrase with it there is none. -/
theorem upTo_spec (u : List Int) (phrases : List (List Int × S)) :
    ∃ rest, upTo u phrases ++ rest = phrases ∧ ∀ p ∈ rest, ¬u <+: p.1 := by
  refine ⟨_, List.rdropWhile_append_rtakeWhile, ?_⟩
  intro p hp
  simpa using List.mem_rtakeWhile_imp hp

theorem upTo_subset (u : List Int) (phrases : List (List Int × S)) : upTo u phrases ⊆ phrases :=
  (List.rdropWhile_prefix _ _).subset

theorem mem_upTo (hp : (p, s) ∈ phrases) (h : u <+: p) : (p, s) ∈ upTo u phrases := by
  obtain ⟨rest, heq, hrest⟩ := upTo_spec u phrases
  rw [← heq, List.mem_append] at hp
  exact hp.resolve_right fun hmem => hrest _ hmem h

/-- Phrases behind the last one with a beginning do not count. -/
theorem upTo_append_of_not {rest : List (List Int × S)} (h : ∀ p ∈ rest, ¬u <+: p.1) :
    upTo u (phrases ++ rest) = upTo u phrases := by
  induction rest using List.reverseRecOn with
  | nil => rw [List.append_nil]
  | append_singleton rest p ih =>
      rw [← List.append_assoc, upTo_concat_of_not (h p (by simp))]
      exact ih fun q hq => h q (by simp [hq])

theorem upTo_append_self {rest : List (List Int × S)} (hne : rest ≠ [])
    (h : ∀ p ∈ rest, u <+: p.1) : upTo u (phrases ++ rest) = phrases ++ rest := by
  induction rest using List.reverseRecOn with
  | nil => exact absurd rfl hne
  | append_singleton rest p _ => rw [← List.append_assoc, upTo_concat (h p (by simp))]

theorem exists_phrase (hu : IsBeginning (phrases.map (·.1)) u) (hne : u ≠ []) :
    ∃ p ∈ phrases, u <+: p.1 := by
  obtain ⟨p, hp, hpre⟩ := hu.resolve_left hne
  obtain ⟨q, hq, rfl⟩ := List.mem_map.mp hp
  exact ⟨q, hq, hpre⟩

section

variable [LT S] [DecidableLT S]

theorem reward?_exists (h : ∃ p ∈ phrases, u <+: p.1) : ∃ r, reward? phrases u = some r := by
  induction phrases using List.reverseRecOn with
  | nil => simp at h
  | append_singleton phrases p ih =>
      rw [reward?_concat]
      split
      · exact ⟨_, rfl⟩
      · rename_i hp
        obtain ⟨q, hq, hu⟩ := h
        rw [List.mem_append, List.mem_singleton] at hq
        exact ih ⟨q, hq.resolve_right fun heq => hp (heq ▸ hu), hu⟩

/-- A reward is that of one of the phrases. -/
theorem reward?_mem {r : S} (h : reward? phrases u = some r) :
    ∃ p ∈ phrases, u <+: p.1 ∧ p.2 = r := by
  induction phrases using List.reverseRecOn generalizing r with
  | nil => simp [reward?] at h
  | append_singleton phrases p ih =>
      have hold {q : S} (hq : reward? phrases u = some q) :
          ∃ p' ∈ phrases ++ [p], u <+: p'.1 ∧ p'.2 = q := by
        obtain ⟨p', hp', hp⟩ := ih hq
        exact ⟨p', List.mem_append_left _ hp', hp⟩
      rw [reward?_concat] at h
      split at h
      · rename_i hp
        have hself : ∃ p' ∈ phrases ++ [p], u <+: p'.1 ∧ p'.2 = p.2 := ⟨p, by simp, hp, rfl⟩
        rw [Option.some_inj] at h
        cases hq : reward? phrases u with
        | none =>
            rw [hq, Option.elim_none] at h
            exact h ▸ hself
        | some q =>
            rw [hq, Option.elim_some, raise] at h
            split at h
            · exact h ▸ hold hq
            · exact h ▸ hself
      · exact hold h

/-- If all phrases are worth the same, so is every token. -/
theorem reward?_common (hs : ∀ p ∈ phrases, p.2 = s) (h : ∃ p ∈ phrases, u <+: p.1) :
    reward? phrases u = some s := by
  obtain ⟨r, hr⟩ := reward?_exists h
  obtain ⟨p, hp, -, rfl⟩ := reward?_mem hr
  rw [hr, hs p hp]

/-- What a beginning then collects is as many times that as it has tokens. -/
theorem collected_common [AddCommMonoid S] (hs : ∀ p ∈ phrases, p.2 = s)
    (h : u ≠ [] → ∃ p ∈ phrases, u <+: p.1) : collected phrases u = u.length • s := by
  have hrewards : tokenRewards (upTo u phrases) u = List.replicate u.length s := by
    rw [List.eq_replicate_iff]
    refine ⟨by simp [tokenRewards], ?_⟩
    intro r hr
    obtain ⟨k, hk, hr⟩ := List.mem_map.mp hr
    have hu : u ≠ [] := by
      intro hnil
      simp [hnil] at hk
    obtain ⟨p, hp, hpre⟩ := h hu
    rw [← hr, reward?_common (fun q hq => hs q (upTo_subset u phrases hq))
      ⟨p, mem_upTo hp hpre, (List.take_prefix _ _).trans hpre⟩, Option.getD_some]
  rw [collected, hrewards, ← List.sum_eq_foldl, List.sum_replicate]

end

/-- The scores of the phrases that begin with a sequence. -/
def worths (phrases : List (List Int × S)) (u : List Int) : Set S :=
  {s | ∃ p ∈ phrases, u <+: p.1 ∧ p.2 = s}

theorem worths_subset_concat {p : List Int × S} :
    worths phrases u ⊆ worths (phrases ++ [p]) u := by
  intro s hs
  obtain ⟨q, hq, hu, heq⟩ := hs
  exact ⟨q, List.mem_append_left _ hq, hu, heq⟩

section

variable [LT S] [DecidableLT S]

theorem not_raise_lt_self {t : Set S} {s r : S} (h : Ranked t) (hs : s ∈ t) (hr : r ∈ t) :
    ¬raise s r < s := by
  rw [raise]
  split
  · rename_i hlt
    exact (h s hs r hr hlt).1
  · exact h.irrefl hs

theorem not_raise_lt {t : Set S} {s r a : S} (h : Ranked t) (hs : s ∈ t) (hr : r ∈ t) (ha : a ∈ t)
    (hra : ¬r < a) : ¬raise s r < a := by
  rw [raise]
  split
  · exact hra
  · rename_i hnot
    exact fun hlt => ((h s hs a ha hlt).2 r hr).elim hnot hra

variable {p : List Int × S} {r : S}

/-- No phrase is worth more than the reward for the last token of its beginning. -/
theorem not_reward?_lt (hranked : Ranked (worths phrases u)) (hp : p ∈ phrases) (hu : u <+: p.1)
    (h : reward? phrases u = some r) : ¬r < p.2 := by
  induction phrases using List.reverseRecOn generalizing r with
  | nil => cases hp
  | append_singleton phrases q ih =>
      have hold {r : S} := ih (r := r) (hranked.mono worths_subset_concat)
      have hworth : p.2 ∈ worths (phrases ++ [q]) u := ⟨p, hp, hu, rfl⟩
      rw [reward?_concat] at h
      rw [List.mem_append, List.mem_singleton] at hp
      split at h
      · rename_i hq
        have hlast : q.2 ∈ worths (phrases ++ [q]) u := ⟨q, by simp, hq, rfl⟩
        rw [Option.some_inj] at h
        subst h
        cases hr : reward? phrases u with
        | none =>
            obtain hp | rfl := hp
            · obtain ⟨r, hr'⟩ := reward?_exists ⟨p, hp, hu⟩
              cases hr.symm.trans hr'
            · exact hranked.irrefl hworth
        | some r =>
            have hbefore : r ∈ worths (phrases ++ [q]) u := worths_subset_concat (reward?_mem hr)
            obtain hp | rfl := hp
            · exact not_raise_lt hranked hlast hbefore hworth (hold hp hr)
            · exact not_raise_lt_self hranked hlast hbefore
      · rename_i hq
        obtain hp | rfl := hp
        · exact hold hp h
        · exact absurd hu hq

theorem isLargest_of_reward? (h : reward? phrases u = some r) : IsLargest (worths phrases u) r := by
  refine ⟨reward?_mem h, ?_⟩
  intro hranked s hs
  obtain ⟨p, hp, hu, rfl⟩ := hs
  exact not_reward?_lt hranked hp hu h

end

section

variable [LinearOrder S] {qs : List (List Int × S)} {v : List Int} {r r' : S}

theorem isGreatest_of_reward? (h : reward? phrases u = some r) :
    IsGreatest (worths phrases u) r :=
  isLargest_iff_isGreatest.mp (isLargest_of_reward? h)

theorem le_reward? {p : List Int × S} (hp : p ∈ phrases) (hu : u <+: p.1)
    (h : reward? phrases u = some r) : p.2 ≤ r :=
  (isGreatest_of_reward? h).2 ⟨p, hp, hu, rfl⟩

/-- The order of the phrases does not matter to a reward, nor do phrases that occur again. -/
theorem reward?_eq_some_iff : reward? phrases u = some r ↔ IsGreatest (worths phrases u) r := by
  refine ⟨isGreatest_of_reward?, fun h => ?_⟩
  obtain ⟨p, hp, hu, -⟩ := h.1
  obtain ⟨r', hr'⟩ := reward?_exists ⟨p, hp, hu⟩
  rw [hr', (isGreatest_of_reward? hr').unique h]

theorem reward?_congr (h : worths phrases u = worths qs v) :
    reward? phrases u = reward? qs v := by
  ext r
  rw [reward?_eq_some_iff, reward?_eq_some_iff, h]

theorem reward?_perm (h : phrases.Perm qs) (u : List Int) : reward? phrases u = reward? qs u := by
  apply reward?_congr
  simp only [worths, h.mem_iff]

theorem reward?_mono (h : worths phrases u ⊆ worths qs v) (hr : reward? phrases u = some r)
    (hr' : reward? qs v = some r') : r ≤ r' :=
  (reward?_eq_some_iff.mp hr).mono (reward?_eq_some_iff.mp hr') h

end

end SpeechTransducer.Hotword
