import SpeechTransducer.Proofs.Hotword.Frontier
import SpeechTransducer.Proofs.Hotword.Trie

/-!
The links of the graph. A failure link leads to the longest proper ending of a node's sequence that
is the sequence of a node, an output link to the longest one that is a phrase. Links are set from
the root downwards, so that the links that a new one is found with are there already.
-/

namespace SpeechTransducer.Hotword

variable {S : Type}

namespace Arena

section

variable [Zero S]

/-- The failure link of a node that stands for a sequence. -/
def FailsTo (nodes : Arena S) (paths : List (List Int)) (i : Nat) (u : List Int) : Prop :=
  ∃ f, paths[(nodes.node i).fail]? = some f ∧ LongestEnding (· ∈ paths) u.tail f

/-- The longest ending of a sequence with the property `E`, as a node. -/
def IsOutput (paths : List (List Int)) (E : List Int → Prop) (w : List Int) : Option Nat → Prop
  | none => ∀ v, v <:+ w → ¬E v
  | some o => ∃ v, paths[o]? = some v ∧ LongestEnding E w v

/-- The links of a node that stands for a sequence, and the reward that comes with them. -/
structure Linked [Add S] (E : List Int → Prop) (nodes : Arena S) (paths : List (List Int)) (i : Nat)
    (u : List Int) : Prop where
  fail : FailsTo nodes paths i u
  output : IsOutput paths E u.tail (nodes.node i).output
  outputScore : (nodes.node i).outputScore =
    match (nodes.node i).output with
    | some o => (nodes.node i).own + (nodes.node o).outputScore
    | none => (nodes.node i).own

variable {nodes : Arena S} {paths : List (List Int)} {E : List Int → Prop}
variable {i : Nat} {u : List Int} {n : Nat}

theorem IsOutput.of_suffix {w f : List Int} {o : Option Nat} (h : IsOutput paths E f o)
    (hf : f <:+ w) (hsub : ∀ v, v <:+ w → E v → v <:+ f) : IsOutput paths E w o := by
  cases o with
  | none => exact fun v hv hv' => h v (hsub v hv hv') hv'
  | some o =>
      obtain ⟨x, hx, hlong⟩ := h
      exact ⟨x, hx, hlong.ending.trans hf, hlong.holds,
        fun v hv hv' => hlong.longest v (hsub v hv hv') hv'⟩

/-- The sequences of a node's children. -/
def kids (nodes : Arena S) (i : Nat) (u : List Int) : List (List Int) :=
  (nodes.node i).next.map fun x => u ++ [x.1]

theorem Spells.mem_kids (h : Spells nodes paths) (hi : paths[i]? = some u) (v : List Int) :
    v ∈ nodes.kids i u ↔ v ∈ paths ∧ ∃ t, v = u ++ [t] := by
  rw [kids, List.mem_map]
  constructor
  · intro hv
    obtain ⟨x, hx, hxv⟩ := hv
    exact ⟨hxv ▸ List.mem_of_getElem? ((h.next hi x.1 x.2).mp hx), x.1, hxv.symm⟩
  · intro hv
    obtain ⟨hmem, t, ht⟩ := hv
    obtain ⟨c, hc⟩ := List.mem_iff_getElem?.mp hmem
    exact ⟨(t, c), (h.next hi t c).mpr (ht ▸ hc), ht.symm⟩

theorem Spells.nodup_kids (h : Spells nodes paths) (hi : paths[i]? = some u) :
    (nodes.kids i u).Nodup ∧ ((nodes.node i).next.map (·.2)).Nodup := by
  have hpath {x : Int × Nat} (hx : x ∈ (nodes.node i).next) := (h.next hi x.1 x.2).mp hx
  constructor
  · refine List.Nodup.map_on ?_ (h.once i)
    intro x hx y hy hxy
    have htoken : x.1 = y.1 := by simpa using hxy
    exact Prod.ext htoken (h.injective (hpath hx) (htoken ▸ hpath hy))
  · refine List.Nodup.map_on ?_ (h.once i)
    intro x hx y hy hxy
    have hpaths := Option.some.inj ((hpath hx).symm.trans (hxy ▸ hpath hy))
    exact Prod.ext (by simpa using hpaths) hxy

theorem Spells.map_children (h : Spells nodes paths) (hi : paths[i]? = some u) :
    ((nodes.node i).next.map (·.2)).map (paths[·]?) = (nodes.kids i u).map some := by
  rw [kids, List.map_map, List.map_map]
  refine List.map_congr_left fun x hx => ?_
  exact (h.next hi x.1 x.2).mp hx

theorem Spells.child_longest (h : Spells nodes paths) (hi : paths[i]? = some u) {t : Int} {c : Nat}
    (hc : (nodes.node i).child? t = some c) :
    ∃ v, paths[c]? = some v ∧ LongestEnding (· ∈ paths) (u ++ [t]) v := by
  have hpath := (h.child?_eq_some hi t c).mp hc
  exact ⟨_, hpath, .self (List.mem_of_getElem? hpath)⟩

theorem Spells.root_longest (h : Spells nodes paths) {t : Int}
    (hc : (nodes.node 0).child? t = none) :
    ∃ v, paths[0]? = some v ∧ LongestEnding (· ∈ paths) ([] ++ [t]) v := by
  have hnot := (h.child?_eq_none h.root t).mp hc
  exact ⟨[], h.root, .of_tail hnot (LongestEnding.nil_iff.mpr ⟨rfl, h.nil_mem⟩)⟩

/-- Failure links lead to where a token goes on, or to the root. The induction is on the bound for
the steps, which the level of the node keeps. -/
theorem Spells.chase (h : Spells nodes paths)
    (hfail : ∀ {j v}, paths[j]? = some v → v ≠ [] → v.length ≤ n → FailsTo nodes paths j v)
    (t : Int) (steps : Nat) (hi : paths[i]? = some u) (hsteps : u.length ≤ steps)
    (hn : u.length ≤ n) :
    ∃ v, paths[nodes.chase t steps i]? = some v ∧ LongestEnding (· ∈ paths) (u ++ [t]) v := by
  induction steps generalizing i u with
  | zero =>
      obtain rfl : u = [] := List.eq_nil_of_length_eq_zero (Nat.le_zero.mp hsteps)
      obtain rfl := h.eq_root hi
      rw [Arena.chase]
      cases hc : (nodes.node 0).child? t with
      | some c => exact h.child_longest hi hc
      | none => exact h.root_longest hc
  | succ steps ih =>
      rw [Arena.chase]
      cases hc : (nodes.node i).child? t with
      | some c => exact h.child_longest hi hc
      | none =>
          by_cases hu : u = []
          · subst hu
            obtain rfl := h.eq_root hi
            exact h.root_longest hc
          · have hnot := (h.child?_eq_none hi t).mp hc
            obtain ⟨f, hf, hlong⟩ := hfail hi hu hn
            have hlen := hlong.length_lt hu
            obtain ⟨v, hv, hvlong⟩ := ih hf (by omega) (by omega)
            have htail := hlong.concat (fun hx => h.closed hx) hvlong
            rw [← List.tail_append_of_ne_nil hu] at htail
            simp only [beq_iff_eq, h.ne_root hi hu, if_false]
            exact ⟨v, hv, .of_tail hnot htail⟩

/-- The nearest phrase end on the way along failure links is the longest ending that is a phrase. -/
theorem Spells.endOnChain (h : Spells nodes paths)
    (hfail : ∀ {j v}, paths[j]? = some v → v ≠ [] → v.length ≤ n → FailsTo nodes paths j v)
    (hend : ∀ {j v}, paths[j]? = some v → ((nodes.node j).isEnd = true ↔ E v))
    (hE : ∀ {v}, E v → v ≠ [] ∧ v ∈ paths)
    (steps : Nat) (hi : paths[i]? = some u) (hsteps : u.length ≤ steps) (hn : u.length ≤ n) :
    IsOutput paths E u (nodes.endOnChain steps i) := by
  have hnil : ∀ v, v <:+ [] → ¬E v := fun v hv hv' => (hE hv').1 (List.suffix_nil.mp hv)
  induction steps generalizing i u with
  | zero =>
      obtain rfl : u = [] := List.eq_nil_of_length_eq_zero (Nat.le_zero.mp hsteps)
      rw [Arena.endOnChain, if_neg fun he => (hE ((hend hi).mp he)).1 rfl]
      exact hnil
  | succ steps ih =>
      rw [Arena.endOnChain]
      split
      · rename_i he
        exact ⟨u, hi, .self ((hend hi).mp he)⟩
      · rename_i he
        rw [hend hi] at he
        by_cases hu : u = []
        · subst hu
          obtain rfl := h.eq_root hi
          exact hnil
        · obtain ⟨f, hf, hlong⟩ := hfail hi hu hn
          have hlen := hlong.length_lt hu
          simp only [beq_iff_eq, h.ne_root hi hu, if_false]
          refine (ih hf (by omega) (by omega)).of_suffix
            (hlong.ending.trans (List.tail_suffix u)) ?_
          -- the phrases that end `u` are proper endings of it, and so they end `f`
          intro v hv hv'
          have hvt : v <:+ u.tail := by
            cases u with
            | nil => exact absurd rfl hu
            | cons a u => exact (List.suffix_cons_iff.mp hv).resolve_left fun heq => he (heq ▸ hv')
          exact hlong.suffix hvt (hE hv').2

end

section

variable [Zero S] [Add S]

theorem size_link (nodes : Arena S) (i : Nat) (t : Int) (c : Nat) :
    (nodes.link i t c).size = nodes.size := Array.size_modify

theorem node_link_of_ne (nodes : Arena S) (i : Nat) (t : Int) {c j : Nat} (h : j ≠ c) :
    (nodes.link i t c).node j = nodes.node j := node_modify_of_ne _ _ h

variable {E : List Int → Prop} {nodes : Arena S} {paths : List (List Int)}
variable {i c : Nat} {u : List Int} {t : Int}

/-- A node's links stay when another one is linked that is no nearer to the root. -/
theorem Linked.link {j : Nat} {v : List Int} (h : Linked E nodes paths j v)
    (hv : v ≠ []) (hjc : j ≠ c)
    (hc : ∀ w, paths[c]? = some w → v.length ≤ w.length) :
    Linked E (nodes.link i t c) paths j v := by
  have hj := node_link_of_ne nodes i t hjc
  refine ⟨by rw [FailsTo, hj]; exact h.fail, by rw [hj]; exact h.output, ?_⟩
  rw [hj, h.outputScore]
  have hout := h.output
  cases ho : (nodes.node j).output with
  | none => rfl
  | some o =>
      rw [ho] at hout
      obtain ⟨w, hw, hlong⟩ := hout
      have hlt := hlong.length_lt hv
      have hoc : o ≠ c := by
        intro heq
        have hle := hc w (heq ▸ hw)
        omega
      simp only [node_link_of_ne nodes i t hoc]

variable [LT S] [DecidableLT S] {phrases : List (List Int × S)}

/-- Links and the rewards that come with them do not belong to what phrases make of an arena. -/
theorem Grown.of_links {nodes' : Arena S} (h : Grown phrases E nodes paths)
    (size : nodes'.size = nodes.size)
    (same : ∀ j, ∃ fail output outputScore,
      nodes'.node j = { nodes.node j with fail, output, outputScore }) :
    Grown phrases E nodes' paths := by
  have next (j : Nat) : (nodes'.node j).next = (nodes.node j).next := by
    obtain ⟨_, _, _, hj⟩ := same j
    rw [hj]
  have level (j : Nat) : (nodes'.node j).level = (nodes.node j).level := by
    obtain ⟨_, _, _, hj⟩ := same j
    rw [hj]
  constructor
  case toSpells => exact h.toSpells.congr size next level
  case mem => exact h.mem
  case isEnd =>
    intro j v hj
    obtain ⟨_, _, _, hs⟩ := same j
    rw [hs]
    exact h.isEnd hj
  case ends => exact h.ends
  case tokenScore =>
    intro j v hj hv
    obtain ⟨_, _, _, hs⟩ := same j
    rw [hs]
    exact h.tokenScore hj hv
  case nodeScore =>
    intro j v hj
    obtain ⟨_, _, _, hs⟩ := same j
    rw [hs]
    exact h.nodeScore hj
  case root_tokenScore =>
    obtain ⟨_, _, _, hs⟩ := same 0
    rw [hs]
    exact h.root_tokenScore

theorem Grown.link (h : Grown phrases E nodes paths) (i : Nat) (t : Int) (c : Nat) :
    Grown phrases E (nodes.link i t c) paths := by
  refine h.of_links (size_link nodes i t c) fun j => ?_
  rw [Arena.link, node_modify]
  split
  · exact ⟨_, _, _, rfl⟩
  · exact ⟨(nodes.node j).fail, (nodes.node j).output, (nodes.node j).outputScore, rfl⟩

/-- A child gets its links from nodes nearer to the root. -/
theorem Grown.linked_child (h : Grown phrases E nodes paths)
    (hE : ∀ {v}, E v → v ≠ [])
    (hfail : ∀ {j v}, paths[j]? = some v → v ≠ [] → v.length ≤ u.length → FailsTo nodes paths j v)
    (hi : paths[i]? = some u) (hu : u ≠ []) (hc : paths[c]? = some (u ++ [t]))
    (hfresh : (nodes.node c).Unlinked) :
    Linked E (nodes.link i t c) paths c (u ++ [t]) := by
  obtain ⟨f, hf, hflong⟩ := hfail hi hu le_rfl
  have hflen := hflong.length_lt hu
  obtain ⟨g, hg, hglong⟩ := h.toSpells.chase hfail t _ hf (h.level hf).ge hflen.le
  have hglen : g.length ≤ u.length := by
    have hle := hglong.ending.length_le
    rw [List.length_append, List.length_singleton] at hle
    omega
  have htail : LongestEnding (· ∈ paths) (u ++ [t]).tail g := by
    rw [List.tail_append_of_ne_nil hu]
    exact hflong.concat (fun hx => h.closed hx) hglong
  have hout := h.toSpells.endOnChain hfail h.isEnd (fun hv => ⟨hE hv, h.ends hv⟩) _ hg
    (h.level hg).ge hglen
  have hnode : (nodes.link i t c).node c = _ := node_modify_self _ _ (h.lt_size hc)
  have hne {o : Nat} {w : List Int} (hw : paths[o]? = some w) (hlong : LongestEnding E g w) :
      o ≠ c := by
    intro heq
    obtain rfl : u ++ [t] = w := Option.some.inj (hc.symm.trans (heq ▸ hw))
    have hle := hlong.ending.length_le
    rw [List.length_append, List.length_singleton] at hle
    omega
  constructor
  case fail =>
    rw [FailsTo, hnode]
    exact ⟨g, hg, htail⟩
  case output =>
    rw [hnode]
    exact hout.of_suffix htail.ending fun v hv hv' => htail.suffix hv (h.ends hv')
  case outputScore =>
    rw [hnode]
    dsimp only
    cases ho : nodes.endOnChain _ _ with
    | none => exact hfresh.outputScore
    | some o =>
        rw [ho] at hout
        obtain ⟨w, hw, hlong⟩ := hout
        simp only [node_link_of_ne nodes i t (hne hw hlong), hfresh.outputScore]
        rfl

/-- All children of a node get their links, one after the other. -/
theorem Grown.link_children (h : Grown phrases E nodes paths) (hE : ∀ {v}, E v → v ≠ [])
    (hi : paths[i]? = some u) (hu : u ≠ [])
    (hlinked : ∀ {j v}, paths[j]? = some v → v ≠ [] → v.length ≤ u.length →
      Linked E nodes paths j v)
    (cs : List (Int × Nat)) (hcs : ∀ x ∈ cs, paths[x.2]? = some (u ++ [x.1]))
    (hnodup : (cs.map (·.2)).Nodup) (hfresh : ∀ x ∈ cs, (nodes.node x.2).Unlinked) :
    let nodes' := cs.foldl (fun nodes x => nodes.link i x.1 x.2) nodes
    Grown phrases E nodes' paths ∧
      (∀ {j v}, paths[j]? = some v → v ≠ [] → v.length ≤ u.length + 1 →
        Linked E nodes paths j v ∨ j ∈ cs.map (·.2) → Linked E nodes' paths j v) ∧
      ∀ j, j ∉ cs.map (·.2) → nodes'.node j = nodes.node j := by
  induction cs generalizing nodes with
  | nil =>
      refine ⟨h, ?_, fun _ _ => rfl⟩
      intro j v _ _ _ hj
      simpa using hj
  | cons x cs ih =>
      rw [List.map_cons, List.nodup_cons] at hnodup
      have hx := hcs x (by simp)
      have hkept {j : Nat} {v : List Int} (hv : v ≠ []) (hlen : v.length ≤ u.length + 1)
          (hjx : j ≠ x.2) (hj : Linked E nodes paths j v) :
          Linked E (nodes.link i x.1 x.2) paths j v := by
        refine hj.link hv hjx fun w hw => ?_
        obtain rfl : u ++ [x.1] = w := Option.some.inj (hx.symm.trans hw)
        simpa using hlen
      have hshort {j : Nat} {v : List Int} (hj : paths[j]? = some v) (hlen : v.length ≤ u.length) :
          j ≠ x.2 := by
        intro heq
        obtain rfl : u ++ [x.1] = v := Option.some.inj (hx.symm.trans (heq ▸ hj))
        rw [List.length_append, List.length_singleton] at hlen
        omega
      have hfirst : Linked E (nodes.link i x.1 x.2) paths x.2 (u ++ [x.1]) :=
        h.linked_child hE (fun hj hv hlen => (hlinked hj hv hlen).fail) hi hu hx
          (hfresh x (by simp))
      have hrest : ∀ y ∈ cs, ((nodes.link i x.1 x.2).node y.2).Unlinked := by
        intro y hy
        have hyx : y.2 ≠ x.2 := fun heq => hnodup.1 (heq ▸ List.mem_map_of_mem hy)
        rw [node_link_of_ne nodes i x.1 hyx]
        exact hfresh y (by simp [hy])
      obtain ⟨hgrown, hall, hsame⟩ := ih (h.link i x.1 x.2)
        (fun hj hv hlen => hkept hv (by omega) (hshort hj hlen) (hlinked hj hv hlen))
        (fun y hy => hcs y (by simp [hy])) hnodup.2 hrest
      refine ⟨hgrown, ?_, ?_⟩
      · intro j v hj hv hlen hor
        apply hall hj hv hlen
        by_cases hjx : j = x.2
        · subst hjx
          obtain rfl : u ++ [x.1] = v := Option.some.inj (hx.symm.trans hj)
          exact .inl hfirst
        · rw [List.map_cons, List.mem_cons, or_iff_right hjx] at hor
          exact hor.imp_left (hkept hv hlen hjx)
      · intro j hj
        rw [List.map_cons, List.mem_cons, not_or] at hj
        rw [List.foldl_cons, hsame j hj.2, node_link_of_ne nodes i x.1 hj.1]

/-- What holds between two steps of setting links: what does not wait has its links, what waits has
none. -/
structure Linking (phrases : List (List Int × S)) (E : List Int → Prop) (nodes : Arena S)
    (paths queue : List (List Int)) : Prop where
  grown : Grown phrases E nodes paths
  front : Frontier paths queue
  sub : ∀ v ∈ queue, v ∈ paths
  linked : ∀ {j v}, paths[j]? = some v → v ≠ [] → ¬Waits queue v → Linked E nodes paths j v
  fresh : ∀ {j v}, paths[j]? = some v → Waits queue v → (nodes.node j).Unlinked
  root : (nodes.node 0).Unlinked

/-- One step: the front leaves the queue, its children get their links and join the queue. -/
theorem Linking.step {queue : List (List Int)} (h : Linking phrases E nodes paths (u :: queue))
    (hE : ∀ {v}, E v → v ≠ []) (hi : paths[i]? = some u) :
    Linking phrases E ((nodes.node i).next.foldl (fun nodes x => nodes.link i x.1 x.2) nodes) paths
      (queue ++ nodes.kids i u) := by
  have hs := h.grown.toSpells
  have hclosed {v w : List Int} (hw : w ∈ paths) (hv : v <+: w) := hs.mem_of_prefix hw hv
  have hkids := hs.mem_kids hi
  have hwaits {v : List Int} (hv : v ∈ paths) := h.front.waits_iff hclosed hkids hv
  have hu : u ≠ [] := fun heq => h.front.ne_nil (by simp [heq])
  have hpath : ∀ x ∈ (nodes.node i).next, paths[x.2]? = some (u ++ [x.1]) :=
    fun x hx => (hs.next hi x.1 x.2).mp hx
  have hchild {j : Nat} {v : List Int} (hj : paths[j]? = some v) :
      j ∈ (nodes.node i).next.map (·.2) ↔ v ∈ nodes.kids i u := by
    rw [kids, List.mem_map, List.mem_map]
    refine exists_congr fun x => and_congr_right fun hx => ?_
    constructor
    · intro heq
      exact Option.some.inj ((hpath x hx).symm.trans (heq ▸ hj))
    · intro heq
      exact hs.injective (hpath x hx) (heq ▸ hj)
  obtain ⟨hgrown, hall, hsame⟩ := h.grown.link_children hE hi hu
    (fun hj hv hlen => h.linked hj hv (h.front.not_waits hlen)) _ hpath (hs.nodup_kids hi).2
    (fun x hx => h.fresh (hpath x hx) ⟨u, by simp, List.prefix_append _ _, by simp⟩)
  constructor
  case grown => exact hgrown
  case front =>
    exact h.front.pop hclosed hkids (fun v hv => h.sub v (by simp [hv])) (hs.nodup_kids hi).1
  case sub =>
    intro v hv
    obtain hv | hv := List.mem_append.mp hv
    · exact h.sub v (by simp [hv])
    · exact ((hkids v).mp hv).1
  case linked =>
    intro j v hj hv hw
    rw [hwaits (List.mem_of_getElem? hj), not_and_not_right] at hw
    by_cases hkid : v ∈ nodes.kids i u
    · obtain ⟨-, t, ht⟩ := (hkids v).mp hkid
      exact hall hj hv (by simp [ht]) (.inr ((hchild hj).mpr hkid))
    · have hold : ¬Waits (u :: queue) v := fun hwait => hkid (hw hwait)
      have hlen := h.front.shallow v (List.mem_of_getElem? hj) hv hold u (by simp)
      exact hall hj hv hlen (.inl (h.linked hj hv hold))
  case fresh =>
    intro j v hj hw
    rw [hwaits (List.mem_of_getElem? hj)] at hw
    rw [hsame j fun hkid => hw.2 ((hchild hj).mp hkid)]
    exact h.fresh hj hw.1
  case root =>
    have hroot : 0 ∉ (nodes.node i).next.map (·.2) := by
      rw [hchild hs.root, kids, List.mem_map]
      simp
    rw [hsame 0 hroot]
    exact h.root

/-- One step of a bounded number: the queue of nodes stays that of the sequences, and one sequence
less is left. -/
theorem Linking.pop {queue : List (List Int)} {rounds : Nat} {ids : List Nat}
    (h : Linking phrases E nodes paths (u :: queue)) (hE : ∀ {v}, E v → v ≠ [])
    (hids : (i :: ids).map (paths[·]?) = (u :: queue).map some)
    (hrounds : (Frontier.left paths (u :: queue)).card ≤ rounds + 1) :
    paths[i]? = some u ∧
      Linking phrases E ((nodes.node i).next.foldl (fun nodes x => nodes.link i x.1 x.2) nodes)
        paths (queue ++ nodes.kids i u) ∧
      (ids ++ (nodes.node i).next.map (·.2)).map (paths[·]?) =
        (queue ++ nodes.kids i u).map some ∧
      (Frontier.left paths (queue ++ nodes.kids i u)).card ≤ rounds := by
  rw [List.map_cons, List.map_cons, List.cons.injEq] at hids
  obtain ⟨hi, hids⟩ := hids
  have hs := h.grown.toSpells
  refine ⟨hi, h.step hE hi, ?_, ?_⟩
  · rw [List.map_append, List.map_append, hids, hs.map_children hi]
  · have hleft : u ∈ Frontier.left paths (u :: queue) :=
      Frontier.mem_left.mpr ⟨h.sub u (by simp), .inl (by simp)⟩
    have hcard := Finset.card_erase_lt_of_mem hleft
    have hpop := Finset.card_le_card (h.front.left_pop
      (fun hw hv => hs.mem_of_prefix hw hv) (hs.mem_kids hi))
    omega

theorem Linking.queue_eq_nil {queue : List (List Int)} (h : Linking phrases E nodes paths queue)
    (hrounds : (Frontier.left paths queue).card = 0) : queue = [] := by
  refine List.eq_nil_iff_forall_not_mem.mpr fun u hu => ?_
  have hleft : u ∈ Frontier.left paths queue := Frontier.mem_left.mpr ⟨h.sub u hu, .inl hu⟩
  simp [Finset.card_eq_zero.mp hrounds] at hleft

/-- All steps. The sequences left in the queue or waiting bound the rounds. -/
theorem Linking.linkAll {queue : List (List Int)} (rounds : Nat) (ids : List Nat)
    (h : Linking phrases E nodes paths queue) (hE : ∀ {v}, E v → v ≠ [])
    (hids : ids.map (paths[·]?) = queue.map some)
    (hrounds : (Frontier.left paths queue).card ≤ rounds) :
    Linking phrases E (linkAll rounds ids nodes) paths [] := by
  induction rounds generalizing nodes queue ids with
  | zero =>
      rw [Arena.linkAll]
      exact h.queue_eq_nil (Nat.le_zero.mp hrounds) ▸ h
  | succ rounds ih =>
      cases ids with
      | nil =>
          obtain rfl : queue = [] := by simpa using hids
          rw [Arena.linkAll]
          · exact h
          · simp
      | cons i ids =>
          cases queue with
          | nil => simp at hids
          | cons u queue =>
              obtain ⟨-, hstep, hids, hrounds⟩ := h.pop hE hids hrounds
              rw [Arena.linkAll]
              exact ih _ hstep hids hrounds

/-- The arena of a finished graph. -/
structure Complete (phrases : List (List Int × S)) (nodes : Arena S) (paths : List (List Int)) :
    Prop extends Grown phrases (IsPhrase (phrases.map (·.1))) nodes paths where
  linked : ∀ {i u}, paths[i]? = some u → u ≠ [] →
    Linked (IsPhrase (phrases.map (·.1))) nodes paths i u
  root_unlinked : (nodes.node 0).Unlinked

theorem Grown.linking (h : Grown phrases E nodes paths) (hE : ∀ {v}, E v → v ≠ [])
    (hfresh : ∀ j, (nodes.node j).Unlinked) :
    Linking phrases E nodes paths (nodes.kids 0 []) := by
  have hs := h.toSpells
  have hkids := hs.mem_kids hs.root
  have hclosed {v w : List Int} (hw : w ∈ paths) (hv : v <+: w) := hs.mem_of_prefix hw hv
  refine ⟨h, .start hclosed hkids (hs.nodup_kids hs.root).1, fun v hv => ((hkids v).mp hv).1, ?_,
    fun _ _ => hfresh _, hfresh 0⟩
  intro j v hj hv hw
  have hmem := Frontier.not_waits_start hclosed hkids (List.mem_of_getElem? hj) hv hw
  obtain ⟨-, t, rfl⟩ := (hkids v).mp hmem
  constructor
  case fail =>
    rw [FailsTo, (hfresh j).fail]
    exact ⟨[], hs.root, LongestEnding.nil_iff.mpr ⟨rfl, hs.nil_mem⟩⟩
  case output =>
    rw [(hfresh j).output]
    exact fun v hv hv' => hE hv' (List.suffix_nil.mp hv)
  case outputScore =>
    rw [(hfresh j).output, (hfresh j).outputScore]

/-- Setting the links leaves every node at its place. -/
theorem Grown.complete {phrases : List (List Int × S)}
    (hgrown : Grown phrases (IsPhrase (phrases.map (·.1))) (ofPhrases phrases) paths) :
    Complete phrases (Graph.ofWeighted phrases).nodes paths := by
  have hs := hgrown.toSpells
  have hE {v : List Int} (hv : IsPhrase (phrases.map (·.1)) v) : v ≠ [] := hv.1
  have hall := (hgrown.linking hE (unlinked_ofPhrases phrases)).linkAll (ofPhrases phrases).size
    ((node (ofPhrases phrases) 0).next.map (·.2)) hE (hs.map_children hs.root)
    (hs.size ▸ Frontier.card_left_le)
  refine ⟨hall.grown, fun hj hv => hall.linked hj hv ?_, hall.root⟩
  simp [Waits]

/-- The graph of any phrases. -/
theorem complete_ofWeighted (phrases : List (List Int × S)) :
    ∃ paths, Complete phrases (Graph.ofWeighted phrases).nodes paths :=
  (grown_ofPhrases phrases).imp fun _ h => h.complete

end

end Arena

end SpeechTransducer.Hotword
