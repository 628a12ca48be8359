import SpeechTransducer.Proofs.Hotword.Accumulation

/-!
What beginnings collect from phrases in different orders. It does not depend on the order if and
only if every phrase is worth as much as each of its beginnings. Otherwise some other phrase raises
the reward of a beginning, and it counts for the phrase if it comes first, but not if it comes last.
-/

namespace SpeechTransducer.Hotword

variable {S : Type} {phrases phrases' : List (List Int × S)} {u : List Int}

variable [LinearOrder S]

/-- Whether every phrase is worth as much as each of its beginnings. -/
def Level (phrases : List (List Int × S)) : Prop :=
  ∀ p ∈ phrases, ∀ v, v <+: p.1 → v ≠ [] → reward? phrases v = reward? phrases p.1

instance (phrases : List (List Int × S)) : Decidable (Level phrases) :=
  decidable_of_iff
    (∀ p ∈ phrases, ∀ v ∈ p.1.inits, v ≠ [] → reward? phrases v = reward? phrases p.1) (by
      simp only [Level, List.mem_inits])

theorem Level.perm (h : Level phrases) (hperm : phrases.Perm phrases') : Level phrases' := by
  intro p hp v hpre hv
  rw [← reward?_perm hperm, ← reward?_perm hperm]
  exact h p (hperm.mem_iff.mpr hp) v hpre hv

/-- The phrase that is worth most of those with a beginning goes on with whatever goes on with the
beginning, and so no later phrase raises the reward. -/
theorem Level.settled (h : Level phrases) (hu : IsBeginning (phrases.map (·.1)) u) :
    Settled phrases u := by
  intro v hv hpre
  have hne : u ≠ [] := fun hnil => hv (List.prefix_nil.mp (hnil ▸ hpre))
  obtain ⟨p, hp, hup⟩ := exists_phrase hu hne
  obtain ⟨r, r', hr, hr', hle⟩ := reward?_upTo_le ⟨p, hp, hup⟩ hpre
  have htop := h p hp v (hpre.trans hup) hv
  obtain ⟨q, hq, hpq, rfl⟩ := reward?_mem (htop.symm.trans hr')
  have hge : q.2 ≤ r := le_reward? (mem_upTo hq (hup.trans hpq)) (hpre.trans (hup.trans hpq)) hr
  rw [hr, hr', le_antisymm hle hge]

theorem tokenRewards_perm [Zero S] (hperm : phrases.Perm phrases') (u : List Int) :
    tokenRewards phrases u = tokenRewards phrases' u :=
  tokenRewards_congr fun v _ _ => reward?_perm hperm v

variable [AddCommGroup S] [IsOrderedAddMonoid S]

theorem Level.collected_perm (h : Level phrases) (hperm : phrases.Perm phrases')
    (hu : IsBeginning (phrases.map (·.1)) u) : collected phrases u = collected phrases' u := by
  have hu' : IsBeginning (phrases'.map (·.1)) u := by
    simpa only [IsBeginning, (hperm.map _).mem_iff] using hu
  rw [(collected_eq_sum_iff (exists_phrase hu)).mpr (h.settled hu),
    (collected_eq_sum_iff (exists_phrase hu')).mpr ((h.perm hperm).settled hu'),
    tokenRewards_perm hperm]

/-- The phrases that go on with a sequence once in front and once at the end. If the sequence
collects the same, none of the others raises a reward on the way to it. -/
theorem settled_of_moved {yes no : List (List Int × S)} (hne : yes ≠ [])
    (hyes : ∀ p ∈ yes, u <+: p.1) (heq : collected (yes ++ no) u = collected (no ++ yes) u) :
    Settled (yes ++ no) u := by
  have hu {rest : List (List Int × S)} (hsub : yes ⊆ rest) : ∃ p ∈ rest, u <+: p.1 := by
    obtain ⟨p, hp⟩ := List.exists_mem_of_ne_nil yes hne
    exact ⟨p, hsub hp, hyes p hp⟩
  have hlast : Settled (no ++ yes) u := by
    intro v _ _
    rw [upTo_append_self hne hyes]
  rw [← collected_eq_sum_iff fun _ => hu (List.subset_append_left yes no), heq,
    (collected_eq_sum_iff fun _ => hu (List.subset_append_right no yes)).mpr hlast,
    tokenRewards_perm List.perm_append_comm]

/-- Phrases that collect the same in all orders are worth as much as each of their beginnings: the
phrases that go on with one of them stand in front in one order and at the end in another. -/
theorem level_of_collected
    (h : ∀ qs, phrases.Perm qs → ∀ u, IsBeginning (phrases.map (·.1)) u →
      collected phrases u = collected qs u) : Level phrases := by
  intro p hp v hpre hv
  let yes := phrases.filter fun q => decide (p.1 <+: q.1)
  let no := phrases.filter fun q => !decide (p.1 <+: q.1)
  have hyes : ∀ q ∈ yes, p.1 <+: q.1 := fun q hq => by simpa using (List.mem_filter.mp hq).2
  have hno : ∀ q ∈ no, ¬p.1 <+: q.1 := fun q hq => by simpa using (List.mem_filter.mp hq).2
  have hself : p ∈ yes := List.mem_filter.mpr ⟨hp, by simp⟩
  have hfront : phrases.Perm (yes ++ no) := (List.filter_append_perm _ _).symm
  have hback : phrases.Perm (no ++ yes) := hfront.trans List.perm_append_comm
  have hu : IsBeginning (phrases.map (·.1)) p.1 :=
    .inr ⟨p.1, List.mem_map_of_mem hp, List.prefix_refl _⟩
  have hsettled : Settled (yes ++ no) p.1 :=
    settled_of_moved (List.ne_nil_of_mem hself) hyes
      ((h _ hfront _ hu).symm.trans (h _ hback _ hu))
  obtain ⟨r, hr⟩ := reward?_exists ⟨p, hp, hpre⟩
  obtain ⟨r', hr'⟩ := reward?_exists ⟨p, hp, List.prefix_refl p.1⟩
  have hle : r' ≤ r := by
    refine reward?_mono ?_ hr' hr
    intro s hs
    obtain ⟨q, hq, hpq, hqs⟩ := hs
    exact ⟨q, hq, hpre.trans hpq, hqs⟩
  -- When the last phrase that goes on with `p` has come, none of the others has.
  have hkept := hsettled v hv hpre
  rw [upTo_append_of_not hno, ← reward?_perm hfront, hr] at hkept
  obtain ⟨q, hq, -, rfl⟩ := reward?_mem hkept
  have hmem : q ∈ yes := upTo_subset _ _ hq
  have hge : q.2 ≤ r' := le_reward? (List.mem_of_mem_filter hmem) (hyes q hmem) hr'
  rw [hr, hr', le_antisymm hge hle]

end SpeechTransducer.Hotword
