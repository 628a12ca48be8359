import SpeechTransducer.Proofs.Score.Exact
import SpeechTransducer.Proofs.Search.Selecting

/-!
What a container holds after additions. Its token sequences are the distinct ones that were added,
in the order of their first addition, and for each of them it holds the paths with these tokens,
merged in the order in which they came. Where the better one of two scores is kept, that is the
first one of the strongest of them, unchanged.
-/

namespace SpeechTransducer.Hypotheses

variable {S : Type}

/-- The scores of paths. -/
def scores (paths : List (Hypothesis S)) : Set S := {r | ∃ h ∈ paths, h.score = r}

theorem scores_mono {paths paths' : List (Hypothesis S)} (h : paths ⊆ paths') :
    scores paths ⊆ scores paths' :=
  fun _ ⟨g, hg, hr⟩ => ⟨g, h hg, hr⟩

/-- The first one of the strongest paths: those in front of it are weaker, and those behind it are
not stronger. -/
def FirstStrongest [LT S] (e : Hypothesis S) (paths : List (Hypothesis S)) : Prop :=
  ∃ before after, paths = before ++ e :: after ∧
    (∀ h ∈ before, h.score < e.score) ∧ ∀ h ∈ after, ¬e.score < h.score

section

variable [LT S] {paths : List (Hypothesis S)} {e g h : Hypothesis S}

theorem FirstStrongest.mem (he : FirstStrongest e paths) : e ∈ paths := by
  obtain ⟨before, after, rfl, -⟩ := he
  exact List.mem_append_right before List.mem_cons_self

theorem FirstStrongest.not_lt (he : FirstStrongest e paths) (hranked : Ranked (scores paths))
    (hg : g ∈ paths) : ¬e.score < g.score := by
  have hscore : e.score ∈ scores paths := ⟨e, he.mem, rfl⟩
  obtain ⟨before, after, rfl, hbefore, hafter⟩ := he
  intro hlt
  have hcases := List.mem_append.mp hg
  rw [List.mem_cons] at hcases
  obtain hmem | rfl | hmem := hcases
  · exact (hranked _ ⟨g, hg, rfl⟩ _ hscore (hbefore g hmem)).1 hlt
  · exact hranked.irrefl hscore hlt
  · exact hafter g hmem hlt

theorem FirstStrongest.stronger [DecidableLT S] (he : FirstStrongest e paths)
    (hranked : Ranked (scores (paths ++ [h]))) :
    FirstStrongest (stronger e h) (paths ++ [h]) := by
  have hsub := scores_mono (List.subset_append_left paths [h])
  have hlast : h.score ∈ scores (paths ++ [h]) :=
    ⟨h, List.mem_append_right paths List.mem_cons_self, rfl⟩
  rw [Hypotheses.stronger]
  split
  · rename_i hlt
    refine ⟨paths, [], rfl, fun g hg => ?_, by simp⟩
    have hcases := (hranked _ (hsub ⟨e, he.mem, rfl⟩) _ hlast hlt).2 _ (hsub ⟨g, hg, rfl⟩)
    exact hcases.resolve_left (he.not_lt (hranked.mono hsub) hg)
  · rename_i hnot
    obtain ⟨before, after, rfl, hbefore, hafter⟩ := he
    refine ⟨before, after ++ [h], by simp, hbefore, fun g hg => ?_⟩
    obtain hg | hg := List.mem_append.mp hg
    · exact hafter g hg
    · exact List.mem_singleton.mp hg ▸ hnot

end

variable [Add S] [Sub S] [LT S] [DecidableLT S] [LogScale S]
variable {rule : MergeRule} {new paths : List (Hypothesis S)} {e h old : Hypothesis S}

theorem tokens_ofList (rule : MergeRule) (new : List (Hypothesis S)) :
    (ofList rule new).entries.map (·.tokens) = (new.map (·.tokens)).eraseDups := by
  induction new using List.reverseRecOn with
  | nil => rfl
  | append_singleton new h ih =>
      rw [ofList_concat, tokens_addTo, ih, List.map_append, List.eraseDups_append]
      split
      · rename_i hold
        simp [List.removeAll, List.mem_map.mp (List.mem_eraseDups.mp hold)]
      · rename_i hfresh
        rw [List.mem_eraseDups] at hfresh
        have hnew : [h.tokens].removeAll (new.map (·.tokens)) = [h.tokens] := by
          simpa [List.removeAll] using hfresh
        rw [List.map_singleton, hnew]
        rfl

/-- What holds of one path, and is kept when a path is merged into those before it, holds of merged
paths. -/
theorem merged_induction {P : List (Hypothesis S) → Hypothesis S → Prop} (hone : ∀ h, P [h] h)
    (hstep : ∀ paths e h, merged rule paths = some e → P paths e →
      P (paths ++ [h]) (combine rule e h))
    (hmerged : merged rule paths = some e) : P paths e := by
  induction paths using List.reverseRecOn generalizing e with
  | nil => cases hmerged
  | append_singleton paths h ih =>
      cases paths with
      | nil =>
          obtain rfl := Option.some.inj hmerged
          exact hone h
      | cons first rest =>
          obtain ⟨e', he'⟩ : ∃ e', merged rule (first :: rest) = some e' := ⟨_, rfl⟩
          obtain rfl := Option.some.inj ((merged_concat he').symm.trans hmerged)
          exact hstep _ _ _ he' (ih he')

theorem combine_best (hsame : old.tokens = h.tokens) :
    combine .best old h = stronger old h := by
  rw [combine, stronger]
  split
  · rw [hsame]
  · rfl

theorem firstStrongest_merged {tokens : List Int} (hmerged : merged .best paths = some e)
    (hsame : ∀ h ∈ paths, h.tokens = tokens) (hranked : Ranked (scores paths)) :
    FirstStrongest e paths := by
  revert hsame hranked
  refine merged_induction (P := fun paths e =>
    (∀ h ∈ paths, h.tokens = tokens) → Ranked (scores paths) → FirstStrongest e paths)
    ?_ ?_ hmerged
  · exact fun h _ _ => ⟨[], [], rfl, by simp, by simp⟩
  · intro paths e h _ ih hsame hranked
    have hold := ih (fun g hg => hsame g (List.mem_append_left [h] hg))
      (hranked.mono (scores_mono (List.subset_append_left paths [h])))
    have htokens : e.tokens = h.tokens :=
      (hsame e (List.mem_append_left [h] hold.mem)).trans (hsame h (by simp)).symm
    rw [combine_best htokens]
    exact hold.stronger hranked

/-- Where the better score is kept and the scores are ranked, additions leave one path for each
token sequence, in the order of the first additions: of all that were added with these tokens the
first one of the strongest, with everything that it carried. -/
theorem entries_ofList_best (new : List (Hypothesis S)) (hranked : Ranked (scores new)) :
    (ofList .best new).entries.map (·.tokens) = (new.map (·.tokens)).eraseDups ∧
      ∀ e ∈ (ofList .best new).entries,
        FirstStrongest e (new.filter fun h => h.tokens = e.tokens) := by
  refine ⟨tokens_ofList .best new, fun e he => ?_⟩
  exact firstStrongest_merged (groups_ofList.entry e he)
    (fun h hh => of_decide_eq_true (List.mem_filter.mp hh).2)
    (hranked.mono (scores_mono List.filter_sublist.subset))

/-- Two token sequences in turn; of the first one, the strongest path comes twice. -/
theorem entries_ofList_best_ties :
    let weak : Hypothesis ℝ := { tokens := [0, 5], score := -3, timestamps := [1] }
    let other : Hypothesis ℝ := { tokens := [0, 7], score := -1, timestamps := [2] }
    let first : Hypothesis ℝ := { tokens := [0, 5], score := -2, timestamps := [3] }
    let second : Hypothesis ℝ := { tokens := [0, 5], score := -2, timestamps := [4] }
    let hs := ofList .best [weak, other, first, second]
    Ranked (scores [weak, other, first, second]) ∧ hs.entries = [first, other] ∧
      hs.entries.map (·.tokens) = [[0, 5], [0, 7]] ∧
      FirstStrongest first [weak, first, second] := by
  intro weak other first second hs
  have hranked : Ranked (scores [weak, other, first, second]) := ranked_of_linearOrder _
  have hfirst : combine .best weak first = first :=
    (combine_best (show weak.tokens = first.tokens from rfl)).trans
      (if_pos (by norm_num [weak, first]))
  have hsecond : combine .best first second = first :=
    (combine_best (show first.tokens = second.tokens from rfl)).trans (if_neg (lt_irrefl _))
  have hentries : hs.entries = [first, other] := by
    calc hs.entries = [combine .best (combine .best weak first) second, other] := rfl
      _ = [first, other] := by rw [hfirst, hsecond]
  obtain ⟨htokens, hstrongest⟩ := entries_ofList_best [weak, other, first, second] hranked
  refine ⟨hranked, hentries, htokens, ?_⟩
  exact hstrongest first (hentries ▸ List.mem_cons_self)

end SpeechTransducer.Hypotheses
