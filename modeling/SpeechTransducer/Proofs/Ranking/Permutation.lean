import Mathlib.Data.List.Perm.Basic
import SpeechTransducer.Ranking

/-!
A ranking holds the elements of the list it ranks, also where some of them cannot be compared.
Every step of finding and merging runs moves elements and neither drops nor doubles one.
-/

namespace SpeechTransducer.Ranking

variable {α : Type} {before : α → α → Bool}

theorem insert_perm (sorted : List α) (x : α) : (insert before sorted x).Perm (x :: sorted) := by
  simp only [insert]
  generalize bisect _ _ _ _ = place
  refine List.perm_middle.trans ?_
  rw [List.take_append_drop]

theorem chain_append (r : α → α → Bool) (x : α) (ys : List α) :
    (chain r x ys).1 ++ (chain r x ys).2 = ys := by
  induction ys generalizing x with
  | nil => rfl
  | cons y ys ih =>
      rw [chain]
      split
      · exact congrArg (y :: ·) (ih y)
      · rfl

theorem firstRun_perm (xs : List α) :
    ((firstRun before xs).1 ++ (firstRun before xs).2).Perm xs := by
  match xs with
  | [] => exact .refl _
  | [x] => exact .refl _
  | x :: y :: ys =>
      rw [firstRun]
      split
      · dsimp only
        refine ((List.reverse_perm _).append_right _).trans ?_
        rw [List.cons_append, List.cons_append, chain_append]
      · dsimp only
        rw [List.cons_append, List.cons_append, chain_append]

theorem firstRun_ne_nil {xs : List α} (h : xs ≠ []) : (firstRun before xs).1 ≠ [] := by
  match xs with
  | [] => exact absurd rfl h
  | [x] => exact List.cons_ne_nil _ _
  | x :: y :: ys =>
      rw [firstRun]
      split
      · simp
      · exact List.cons_ne_nil _ _

theorem foldl_insert_perm (xs run : List α) :
    (xs.foldl (insert before) run).Perm (run ++ xs) := by
  induction xs generalizing run with
  | nil => rw [List.append_nil, List.foldl_nil]
  | cons x xs ih =>
      refine (ih _).trans ?_
      refine ((insert_perm run x).append_right xs).trans ?_
      exact List.perm_middle.symm

theorem nextRun_perm (length : Nat) (xs : List α) :
    ((nextRun before length xs).1 ++ (nextRun before length xs).2).Perm xs := by
  simp only [nextRun]
  generalize length - (firstRun before xs).1.length = lacking
  refine ((foldl_insert_perm _ _).append_right _).trans ?_
  rw [List.append_assoc, List.take_append_drop]
  exact firstRun_perm xs

/-- A run takes elements. -/
theorem nextRun_length_lt (length : Nat) {xs : List α} (h : xs ≠ []) :
    (nextRun before length xs).2.length < xs.length := by
  have hne : (firstRun before xs).1 ≠ [] := firstRun_ne_nil h
  have hpos := List.length_pos_iff.mpr hne
  have hlen : ((firstRun before xs).1 ++ (firstRun before xs).2).length = xs.length :=
    (firstRun_perm xs).length_eq
  simp only [nextRun, List.length_drop]
  rw [List.length_append] at hlen
  omega

namespace Merging

/-- All elements of a merging, those that have their place and those of both runs. -/
def all (m : Merging α) : List α := m.merged ++ (m.first ++ m.second)

theorem result_perm (m : Merging α) : m.result.Perm m.all := by
  rw [result, all, List.append_assoc]
  exact List.perm_append_comm.append_left _

theorem takeFirst_perm (m : Merging α) (count : Nat) : (m.takeFirst count).all.Perm m.all := by
  simp only [all, takeFirst]
  rw [List.append_assoc, ← List.append_assoc (m.first.take count), List.take_append_drop]

theorem takeSecond_perm (m : Merging α) (count : Nat) : (m.takeSecond count).all.Perm m.all := by
  simp only [all, takeSecond]
  rw [List.append_assoc]
  refine List.Perm.append_left _ ?_
  refine (List.perm_append_comm_assoc _ _ _).trans ?_
  rw [List.take_append_drop]

end Merging

namespace Manner

variable {c : Manner α}

theorem step_perm (patience bound : Nat) (lastPassed : Bool) (wins : Nat) (m : Merging α) :
    (c.step patience bound lastPassed wins m).all.Perm m.all := by
  induction bound generalizing lastPassed wins m with
  | zero => exact .refl _
  | succ bound ih =>
      rw [step]
      split
      · split
        · exact .refl _
        · refine (ih _ _ _).trans ?_
          split
          · exact m.takeSecond_perm 1
          · exact m.takeFirst_perm 1
      · exact .refl _

theorem leapFirst_perm (m : Merging α) : (c.leapFirst m).2.all.Perm m.all := by
  rw [leapFirst]
  split
  · exact .refl _
  · dsimp only
    split
    · exact m.takeFirst_perm _
    · exact (Merging.takeSecond_perm _ 1).trans (m.takeFirst_perm _)

theorem leapSecond_perm (m : Merging α) : (c.leapSecond m).2.all.Perm m.all := by
  rw [leapSecond]
  split
  · exact .refl _
  · dsimp only
    split
    · exact m.takeSecond_perm _
    · exact (Merging.takeFirst_perm _ 1).trans (m.takeSecond_perm _)

theorem leapBoth_perm (m : Merging α) : (c.leapBoth m).2.all.Perm m.all := by
  rw [leapBoth]
  cases c.measured with
  | near =>
      dsimp only
      split
      · exact leapFirst_perm m
      · exact (leapSecond_perm _).trans (leapFirst_perm m)
  | far =>
      dsimp only
      split
      · exact leapSecond_perm m
      · exact (leapFirst_perm _).trans (leapSecond_perm m)

theorem leaps_perm (bound patience : Nat) (m : Merging α) :
    (c.leaps bound patience m).2.all.Perm m.all := by
  induction bound generalizing patience m with
  | zero => exact .refl _
  | succ bound ih =>
      rw [leaps]
      dsimp only
      split
      · exact leapBoth_perm m
      · split
        · exact (ih _ _).trans (leapBoth_perm m)
        · exact leapBoth_perm m

theorem run_perm (size bound patience : Nat) (m : Merging α) :
    (c.run size bound patience m).2.all.Perm m.all := by
  induction bound generalizing patience m with
  | zero => exact .refl _
  | succ bound ih =>
      have hstep := step_perm (c := c) patience size false 0 m
      rw [run]
      dsimp only
      split
      · exact hstep
      · have hleaps := (leaps_perm (c := c) size patience _).trans hstep
        split
        · exact hleaps
        · exact (ih _ _).trans hleaps

theorem merge_perm (patience : Nat) (first second : List α) :
    (c.merge patience first second).2.Perm (first ++ second) := by
  have htake := Merging.takeSecond_perm ({ first, second } : Merging α) 1
  rw [merge]
  refine (Merging.result_perm _).trans ?_
  split
  · exact htake
  · exact (run_perm _ _ _ _).trans htake

end Manner

/-- The stretches that are merged lie between those that stay. -/
theorem mergeRuns_perm (patience : Nat) (left right : List α) :
    (mergeRuns before patience left right).2.Perm (left ++ right) := by
  cases right with
  | nil => rw [mergeRuns, List.append_nil]
  | cons y ys =>
      simp only [mergeRuns]
      generalize leap .near _ left = settled
      split
      · exact .refl _
      · generalize (y :: ys).length - leap .far _ (y :: ys).reverse = count
        split
        · exact .refl _
        · generalize y :: ys = right
          have hmerged : ∀ merged : List α,
              merged.Perm (left.drop settled ++ right.take count) →
                (left.take settled ++ merged ++ right.drop count).Perm (left ++ right) := by
            intro merged hm
            refine ((hm.append_left _).append_right _).trans ?_
            rw [← List.append_assoc, List.take_append_drop, List.append_assoc,
              List.take_append_drop]
          split
          · exact hmerged _ (Manner.merge_perm _ _ _)
          · refine hmerged _ ((List.reverse_perm _).trans ?_)
            refine (Manner.merge_perm _ _ _).trans ?_
            refine ((List.reverse_perm _).append (List.reverse_perm _)).trans ?_
            exact List.perm_append_comm

/-- The elements of runs that wait. -/
def waiting (ws : List (Waiting α)) : List α := (ws.map (·.run)).flatten

theorem settle_perm (depth patience : Nat) (last : List α) (ws : List (Waiting α)) :
    ((settle before depth patience last ws).last ++
      waiting (settle before depth patience last ws).earlier).Perm (last ++ waiting ws) := by
  induction ws generalizing patience last with
  | nil => exact .refl _
  | cons w ws ih =>
      rw [settle]
      split
      · refine (ih _ _).trans ?_
        refine ((mergeRuns_perm patience w.run last).append_right _).trans ?_
        refine (List.perm_append_comm.append_right _).trans ?_
        rw [List.append_assoc, waiting, waiting, List.map_cons, List.flatten_cons]
      · exact .refl _

/-- The elements of the runs found so far. -/
def Runs.all (r : Runs α) : List α := r.last ++ waiting r.earlier

theorem Runs.push_perm (n : Nat) (r : Runs α) (next : List α) :
    (r.push before n next).all.Perm (next ++ r.all) := by
  simp only [Runs.push, Runs.all, waiting, List.map_cons, List.flatten_cons]
  exact (settle_perm _ _ _ _).append_left next

theorem findRuns_perm (n bound : Nat) (r : Runs α) (xs : List α) (h : xs.length ≤ bound) :
    (findRuns before n bound r xs).all.Perm (r.all ++ xs) := by
  induction bound generalizing r xs with
  | zero =>
      obtain rfl : xs = [] := List.eq_nil_of_length_eq_zero (Nat.le_zero.mp h)
      rw [findRuns, List.append_nil]
  | succ bound ih =>
      by_cases hnil : xs = []
      · subst hnil
        rw [findRuns, List.append_nil]
        simp
      · have hlt : (nextRun before (shortest n) xs).2.length < xs.length :=
          nextRun_length_lt (shortest n) hnil
        have hih := ih (r.push before n (nextRun before (shortest n) xs).1)
          (nextRun before (shortest n) xs).2 (by omega)
        rw [findRuns]
        · refine hih.trans ?_
          refine ((Runs.push_perm n r _).append_right _).trans ?_
          refine (List.perm_append_comm.append_right _).trans ?_
          rw [List.append_assoc]
          exact (nextRun_perm (shortest n) xs).append_left _
        · exact hnil

theorem mergeAll_perm (patience : Nat) (last : List α) (runs : List (List α)) :
    (mergeAll before patience last runs).Perm (last ++ runs.flatten) := by
  induction patience, last, runs using mergeAll.induct before with
  | case1 patience last => rw [mergeAll, List.flatten_nil, List.append_nil]
  | case2 patience last run =>
      rw [mergeAll, List.flatten_singleton]
      exact (mergeRuns_perm _ _ _).trans List.perm_append_comm
  | case3 patience last run first rest hlt patience' merged hmerged ih =>
      have hperm : (mergeRuns before patience first run).2.Perm (first ++ run) :=
        mergeRuns_perm patience first run
      rw [hmerged] at hperm
      rw [mergeAll, if_pos hlt, hmerged]
      refine ih.trans (List.Perm.append_left last ?_)
      rw [List.flatten_cons, List.flatten_cons, List.flatten_cons, ← List.append_assoc]
      exact (hperm.trans List.perm_append_comm).append_right _
  | case4 patience last run first rest hlt patience' merged hmerged ih =>
      have hperm : (mergeRuns before patience run last).2.Perm (run ++ last) :=
        mergeRuns_perm patience run last
      rw [hmerged] at hperm
      rw [mergeAll, if_neg hlt, hmerged]
      refine ih.trans ?_
      change (merged ++ (first :: rest).flatten).Perm (last ++ (run ++ (first :: rest).flatten))
      rw [← List.append_assoc]
      exact (hperm.trans List.perm_append_comm).append_right _

theorem rankByRuns_perm (xs : List α) : (rankByRuns before xs).Perm xs := by
  simp only [rankByRuns]
  refine (mergeAll_perm _ _ _).trans ?_
  refine (findRuns_perm xs.length xs.length _ _ ?_).trans ?_
  · have hperm : ((nextRun before (shortest xs.length) xs).1 ++
        (nextRun before (shortest xs.length) xs).2).Perm xs := nextRun_perm _ xs
    have hlen := hperm.length_eq
    rw [List.length_append] at hlen
    omega
  · rw [Runs.all, waiting, List.map_nil, List.flatten_nil, List.append_nil]
    exact nextRun_perm _ xs

/-- A ranking has the elements of the list. -/
theorem rank_perm (comparable : α → Bool) (xs : List α) : (rank before comparable xs).Perm xs := by
  rw [rank]
  split
  · exact List.mergeSort_perm xs _
  · exact rankByRuns_perm xs

end SpeechTransducer.Ranking
