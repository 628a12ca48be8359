import SpeechTransducer.Proofs.Hotword.Walk

/-!
Loops along failure links. A failure link leads to a node nearer to the root, so that a loop that
follows links ends, after no more rounds than the level of the node whose links it looks for. That
is so in a finished graph and also while links are set: the nodes that a loop visits then are nearer
to the root than the one that it runs for, and have their links.

The loops of this module have no bound of their own. What a graph is built with gives the same
nodes.
-/

namespace SpeechTransducer.Hotword

variable {S : Type}

/-- A loop that ends at a state after a number of rounds. -/
inductive Loops {α : Type} (again : α → Prop) (next : α → α) : α → Nat → α → Prop where
  | done {x : α} (h : ¬again x) : Loops again next x 0 x
  | round {x y : α} {n : Nat} (h : again x) (rest : Loops again next (next x) n y) :
      Loops again next x (n + 1) y

namespace Arena

section

variable [Zero S]

/-- The end of a node's failure link. -/
def failOf (nodes : Arena S) (i : Nat) : Nat := (nodes.node i).fail

/-- Whether the search for a token goes on from a node along its failure link. -/
def Climbs (nodes : Arena S) (token : Int) (i : Nat) : Prop :=
  (nodes.node i).child? token = none ∧ i ≠ 0

/-- Where a token leads from the end of a search for it. -/
def onward (nodes : Arena S) (token : Int) (i : Nat) : Nat :=
  ((nodes.node i).child? token).getD i

/-- Whether the search for a phrase end goes on from a node. -/
def Seeks (nodes : Arena S) : Option Nat → Prop
  | none => False
  | some i => (nodes.node i).isEnd = false

/-- Where it goes on: along the failure link, and from the root nowhere. -/
def further (nodes : Arena S) : Option Nat → Option Nat
  | none => none
  | some i => if i = 0 then none else some (nodes.failOf i)

variable {nodes : Arena S} {paths : List (List Int)} {i c n : Nat} {u : List Int} {t : Int}

theorem chase_of_not_climbs (h : ¬nodes.Climbs t i) (steps : Nat) :
    nodes.chase t steps i = nodes.onward t i := by
  cases hc : (nodes.node i).child? t with
  | some c => cases steps <;> simp [chase, onward, hc]
  | none =>
      obtain rfl : i = 0 := by simpa [Climbs, hc] using h
      cases steps <;> simp [chase, onward, hc]

theorem chase_of_climbs (h : nodes.Climbs t i) (steps : Nat) :
    nodes.chase t (steps + 1) i = nodes.chase t steps (nodes.failOf i) := by
  simp [chase, h.1, h.2, failOf]

/-- A search for a phrase end is over at a phrase end, and behind the root. -/
theorem endOnChain_loops_here (h : (nodes.node i).isEnd = true ∨ i = 0) (steps : Nat) :
    ∃ k, Loops nodes.Seeks nodes.further (some i) k (nodes.endOnChain steps i) ∧ k ≤ 1 := by
  cases he : (nodes.node i).isEnd with
  | true =>
      have heq : nodes.endOnChain steps i = some i := by cases steps <;> simp [endOnChain, he]
      rw [heq]
      exact ⟨0, .done (by simp [Seeks, he]), Nat.zero_le 1⟩
  | false =>
      obtain rfl : i = 0 := by simpa [he] using h
      have heq : nodes.endOnChain steps 0 = none := by cases steps <;> simp [endOnChain, he]
      rw [heq]
      exact ⟨1, .round he (.done id), le_rfl⟩

theorem endOnChain_succ (h : (nodes.node i).isEnd = false) (hi : i ≠ 0) (steps : Nat) :
    nodes.endOnChain (steps + 1) i = nodes.endOnChain steps (nodes.failOf i) := by
  simp [endOnChain, h, hi, failOf]

theorem FailsTo.shorter (h : FailsTo nodes paths i u) (hu : u ≠ []) :
    ∃ f, paths[nodes.failOf i]? = some f ∧ f.length < u.length := by
  obtain ⟨f, hf, hlong⟩ := h
  exact ⟨f, hf, hlong.length_lt hu⟩

section

variable (h : Spells nodes paths)
variable (hfail : ∀ {j v}, paths[j]? = some v → v ≠ [] → v.length ≤ n → FailsTo nodes paths j v)

include h hfail

/-- A search for a token visits no more nodes behind its first one than there are tokens above
that. The induction is on the bound that the graph is built with. -/
theorem chase_loops (t : Int) (steps : Nat) (hi : paths[i]? = some u) (hsteps : u.length ≤ steps)
    (hn : u.length ≤ n) :
    ∃ k j, Loops (nodes.Climbs t) nodes.failOf i k j ∧ k ≤ u.length ∧
      nodes.chase t steps i = nodes.onward t j := by
  induction steps generalizing i u with
  | zero =>
      have hu : u = [] := by simpa using hsteps
      subst hu
      have hend : ¬nodes.Climbs t i := by simp [Climbs, h.eq_root hi]
      exact ⟨0, i, .done hend, le_rfl, chase_of_not_climbs hend 0⟩
  | succ steps ih =>
      by_cases hc : nodes.Climbs t i
      · have hu : u ≠ [] := fun heq => hc.2 (h.eq_root (heq ▸ hi))
        obtain ⟨f, hf, hlt⟩ := (hfail hi hu hn).shorter hu
        obtain ⟨k, j, hloop, hk, heq⟩ := ih hf (by omega) (by omega)
        exact ⟨k + 1, j, .round hc hloop, by omega, (chase_of_climbs hc steps).trans heq⟩
      · exact ⟨0, i, .done hc, Nat.zero_le _, chase_of_not_climbs hc _⟩

/-- A search for a phrase end takes one round more when it gives up behind the root. -/
theorem endOnChain_loops (steps : Nat) (hi : paths[i]? = some u) (hsteps : u.length ≤ steps)
    (hn : u.length ≤ n) :
    ∃ k, Loops nodes.Seeks nodes.further (some i) k (nodes.endOnChain steps i) ∧
      k ≤ u.length + 1 := by
  induction steps generalizing i u with
  | zero =>
      have hu : u = [] := by simpa using hsteps
      subst hu
      exact endOnChain_loops_here (.inr (h.eq_root hi)) 0
  | succ steps ih =>
      by_cases hend : (nodes.node i).isEnd = true ∨ i = 0
      · obtain ⟨k, hloop, hk⟩ := endOnChain_loops_here hend (steps + 1)
        exact ⟨k, hloop, by omega⟩
      · obtain ⟨he, hroot⟩ : (nodes.node i).isEnd = false ∧ i ≠ 0 := by simpa using hend
        have hu : u ≠ [] := fun heq => hroot (h.eq_root (heq ▸ hi))
        obtain ⟨f, hf, hlt⟩ := (hfail hi hu hn).shorter hu
        obtain ⟨k, hloop, hk⟩ := ih hf (by omega) (by omega)
        have hnext : nodes.further (some i) = some (nodes.failOf i) := by simp [further, hroot]
        rw [endOnChain_succ he hroot]
        exact ⟨k + 1, .round he (hnext ▸ hloop), by omega⟩

end

end

section

variable [Zero S] [Add S]

/-- Gives a node its links, and the reward that comes with them. -/
def setLinks (nodes : Arena S) (child fail : Nat) (output : Option Nat) : Arena S :=
  nodes.modify child fun n =>
    { n with
      fail
      output
      outputScore := match output with
        | some o => n.outputScore + (nodes.node o).outputScore
        | none => n.outputScore }

/-- The links of one child, found by two searches: for its token, from the end of its parent's
failure link, and for a phrase end, from where the first search ends. -/
inductive Links (nodes : Arena S) (parent : Nat) (token : Int) (child : Nat) : Arena S → Prop where
  | intro {n m j : Nat} {output : Option Nat}
      (climb : Loops (nodes.Climbs token) nodes.failOf (nodes.failOf parent) n j)
      (climb_le : n ≤ (nodes.node parent).level)
      (seek : Loops nodes.Seeks nodes.further (some (nodes.onward token j)) m output)
      (seek_le : m ≤ (nodes.node child).level) :
      Links nodes parent token child (nodes.setLinks child (nodes.onward token j) output)

/-- The links of several children of a node, one after the other. -/
inductive LinksAll (parent : Nat) : List (Int × Nat) → Arena S → Arena S → Prop where
  | nil {nodes : Arena S} : LinksAll parent [] nodes nodes
  | cons {nodes nodes' nodes'' : Arena S} {c : Int × Nat} {cs : List (Int × Nat)}
      (first : Links nodes parent c.1 c.2 nodes') (rest : LinksAll parent cs nodes' nodes'') :
      LinksAll parent (c :: cs) nodes nodes''

/-- The links of all nodes below those in a queue. -/
inductive Fills : List Nat → Arena S → Arena S → Prop where
  | done {nodes : Arena S} : Fills [] nodes nodes
  | visit {nodes nodes' nodes'' : Arena S} {i : Nat} {queue : List Nat}
      (children : LinksAll i (nodes.node i).next nodes nodes')
      (rest : Fills (queue ++ (nodes.node i).next.map (·.2)) nodes' nodes'') :
      Fills (i :: queue) nodes nodes''

theorem link_eq_setLinks (nodes : Arena S) (i : Nat) (t : Int) (c : Nat) :
    nodes.link i t c =
      let fail := nodes.chase t (nodes.node (nodes.failOf i)).level (nodes.failOf i)
      nodes.setLinks c fail (nodes.endOnChain (nodes.node fail).level fail) := rfl

variable {nodes : Arena S} {paths : List (List Int)} {i c : Nat} {u : List Int} {t : Int}

theorem Spells.link (h : Spells nodes paths) (i : Nat) (t : Int) (c : Nat) :
    Spells (nodes.link i t c) paths := by
  refine h.congr (size_link nodes i t c) ?_ ?_ <;> intro j <;> rw [Arena.link, node_modify] <;>
    split <;> rfl

/-- Both searches visit nodes that have their links, and end in time. -/
theorem Spells.links_child (h : Spells nodes paths)
    (hfail : ∀ {j v}, paths[j]? = some v → v ≠ [] → v.length ≤ u.length → FailsTo nodes paths j v)
    (hi : paths[i]? = some u) (hu : u ≠ []) (hc : paths[c]? = some (u ++ [t])) :
    Links nodes i t c (nodes.link i t c) := by
  obtain ⟨f, hf, hlt⟩ := (hfail hi hu le_rfl).shorter hu
  obtain ⟨n, j, hclimb, hn, heq⟩ := chase_loops h hfail t _ hf (h.level hf).ge hlt.le
  obtain ⟨g, hg, hlong⟩ := h.chase hfail t _ hf (h.level hf).ge hlt.le
  have hlen : g.length ≤ u.length := by
    have hle := hlong.ending.length_le
    rw [List.length_append, List.length_singleton] at hle
    omega
  obtain ⟨m, hseek, hm⟩ := endOnChain_loops h hfail _ hg (h.level hg).ge hlen
  rw [link_eq_setLinks]
  rw [heq] at hseek ⊢
  apply Links.intro hclimb ?_ hseek
  · rw [h.level hc, List.length_append, List.length_singleton]
    omega
  · rw [h.level hi]
    omega

theorem Spells.linksAll (h : Spells nodes paths)
    (hfail : ∀ {j v}, paths[j]? = some v → v ≠ [] → v.length ≤ u.length → FailsTo nodes paths j v)
    (hi : paths[i]? = some u) (hu : u ≠ []) (cs : List (Int × Nat))
    (hcs : ∀ x ∈ cs, paths[x.2]? = some (u ++ [x.1])) :
    LinksAll i cs nodes (cs.foldl (fun nodes x => nodes.link i x.1 x.2) nodes) := by
  induction cs generalizing nodes with
  | nil => exact .nil
  | cons x cs ih =>
      have hx := hcs x (by simp)
      apply LinksAll.cons (h.links_child hfail hi hu hx)
      apply ih (h.link i x.1 x.2)
      · intro j v hj hv hlen
        have hne : j ≠ x.2 := by
          intro heq
          have hpath := Option.some.inj (hx.symm.trans (heq ▸ hj))
          rw [← hpath, List.length_append, List.length_singleton] at hlen
          omega
        rw [FailsTo, node_link_of_ne nodes i x.1 hne]
        exact hfail hj hv hlen
      · intro y hy
        exact hcs y (by simp [hy])

variable [LT S] [DecidableLT S] {phrases : List (List Int × S)} {E : List Int → Prop}

/-- Setting the links ends without a bound as well. -/
theorem Linking.fills {queue : List (List Int)} (rounds : Nat) (ids : List Nat)
    (h : Linking phrases E nodes paths queue) (hE : ∀ {v}, E v → v ≠ [])
    (hids : ids.map (paths[·]?) = queue.map some)
    (hrounds : (Frontier.left paths queue).card ≤ rounds) :
    Fills ids nodes (Arena.linkAll rounds ids nodes) := by
  induction rounds generalizing nodes queue ids with
  | zero =>
      have hqueue := h.queue_eq_nil (Nat.le_zero.mp hrounds)
      obtain rfl : ids = [] := by simpa [hqueue] using hids
      exact .done
  | succ rounds ih =>
      cases ids with
      | nil => exact .done
      | cons i ids =>
          cases queue with
          | nil => simp at hids
          | cons u queue =>
              obtain ⟨hi, hstep, hids', hrounds'⟩ := h.pop hE hids hrounds
              have hs := h.grown.toSpells
              have hu : u ≠ [] := fun heq => h.front.ne_nil (by simp [heq])
              apply Fills.visit (hs.linksAll ?_ hi hu _ ?_) (ih _ hstep hids' hrounds')
              · intro j v hj hv hlen
                exact (h.linked hj hv (h.front.not_waits hlen)).fail
              · intro x hx
                exact (hs.next hi x.1 x.2).mp hx

theorem fills_ofWeighted (phrases : List (List Int × S)) :
    Fills ((node (ofPhrases phrases) 0).next.map (·.2)) (ofPhrases phrases)
      (Graph.ofWeighted phrases).nodes := by
  obtain ⟨paths, h⟩ := grown_ofPhrases phrases
  have hE {v : List Int} (hv : IsPhrase (phrases.map (·.1)) v) : v ≠ [] := hv.1
  have hs := h.toSpells
  exact (h.linking hE (unlinked_ofPhrases phrases)).fills _ _ hE (hs.map_children hs.root)
    (hs.size ▸ Frontier.card_left_le)

end

/-- The numbers of nodes in an arena are positions of it, and failure links lead nearer to the
root. -/
structure WellLinked [Zero S] (nodes : Arena S) : Prop where
  next : ∀ i < nodes.size, ∀ c ∈ (nodes.node i).next, c.2 < nodes.size
  fail : ∀ i < nodes.size, nodes.failOf i < nodes.size
  output : ∀ i < nodes.size, ∀ o ∈ (nodes.node i).output, o < nodes.size
  nearer : ∀ i < nodes.size, i ≠ 0 →
    (nodes.node (nodes.failOf i)).level < (nodes.node i).level

section

variable [Zero S] [Add S] [LT S] [DecidableLT S]
variable {phrases : List (List Int × S)} {g : Graph S} {paths : List (List Int)}

theorem Complete.wellLinked (h : Complete phrases g.nodes paths) : g.nodes.WellLinked := by
  constructor
  case next =>
    intro i hi c hc
    obtain ⟨u, hu⟩ := h.exists_path hi
    exact h.lt_size ((h.next hu c.1 c.2).mp hc)
  case fail =>
    intro i hi
    obtain ⟨u, hu⟩ := h.exists_path hi
    obtain ⟨f, hf, -⟩ := h.fail hu
    exact h.lt_size hf
  case output =>
    intro i hi o ho
    obtain ⟨u, hu⟩ := h.exists_path hi
    by_cases hroot : u = []
    · subst hroot
      obtain rfl := h.eq_root hu
      simp [h.root_unlinked.output] at ho
    · have hout := (h.linked hu hroot).output
      rw [ho] at hout
      obtain ⟨v, hv, -⟩ := hout
      exact h.lt_size hv
  case nearer =>
    intro i hi hroot
    obtain ⟨u, hu⟩ := h.exists_path hi
    have hne : u ≠ [] := fun heq => hroot (h.eq_root (heq ▸ hu))
    obtain ⟨f, hf, hlt⟩ := (h.linked hu hne).fail.shorter hne
    rw [h.level hf, h.level hu]
    exact hlt

/-- A step that finds no child searches from the end of a failure link. -/
theorem Complete.advance_loops [Sub S] (h : Complete phrases g.nodes paths) {i : Nat}
    (hi : i < g.size) (t : Int) (hc : (g.nodes.node i).child? t = none) :
    ∃ n j, Loops (g.nodes.Climbs t) g.nodes.failOf (g.nodes.failOf i) n j ∧
      n ≤ (g.nodes.node i).level ∧ (g.advance i t).2 = g.nodes.onward t j := by
  obtain ⟨u, hu⟩ := h.exists_path hi
  obtain ⟨f, hf, hlong⟩ := h.fail hu
  have hlen := hlong.ending.length_le
  rw [List.length_tail] at hlen
  obtain ⟨n, j, hloop, hn, heq⟩ := chase_loops h.toSpells
    (fun hj hv _ => (h.linked hj hv).fail) t _ hf (h.level hf).ge le_rfl
  refine ⟨n, j, hloop, ?_, ?_⟩
  · rw [h.level hu]
    omega
  · simpa only [Graph.advance, hc] using heq

end

end Arena

namespace Graph

variable [Zero S] [Add S] [Sub S] [LT S] [DecidableLT S] [BEq S]

/-- The searches along failure links end in time, while a graph is built and in every step of a
walk, and steps lead from nodes to nodes. -/
theorem ofPhrases_searches_end (phrases : List (List Int)) (score : S) (scores : Option (List S))
    (hcount : Counted phrases scores) :
    ∃ g, ofPhrases phrases score scores = .ok g ∧ g.nodes.WellLinked ∧
      Arena.Fills (((Arena.ofPhrases (weigh phrases score scores)).node root).next.map (·.2))
        (Arena.ofPhrases (weigh phrases score scores)) g.nodes ∧
      (∀ i < g.size, ∀ t, (g.nodes.node i).child? t = none →
        ∃ n j, Loops (g.nodes.Climbs t) g.nodes.failOf (g.nodes.failOf i) n j ∧
          n ≤ (g.nodes.node i).level ∧ (g.advance i t).2 = g.nodes.onward t j) ∧
      ∀ strict, ∀ i < g.size, ∀ t, (g.step strict i t).2 < g.size := by
  obtain ⟨paths, h⟩ := Arena.complete_ofWeighted (weigh phrases score scores)
  refine ⟨_, ofPhrases_eq_ok score hcount, h.wellLinked, Arena.fills_ofWeighted _, ?_, ?_⟩
  · intro i hi t hc
    exact h.advance_loops hi t hc
  · intro strict i hi t
    exact h.step_lt_size strict hi t

/-- Phrases that overlap themselves and each other. -/
theorem ofPhrases_searches_end_overlapping :
    ∃ g, ofPhrases [[1, 1, 2], [1, 1, 1, 3], [2, 1]] (1 : Int) (some [3, 0, -1]) = .ok g ∧
      g.nodes.WellLinked ∧ ∀ strict, ∀ i < g.size, ∀ t, (g.step strict i t).2 < g.size := by
  obtain ⟨g, hg, hlinked, -, -, hstep⟩ := ofPhrases_searches_end [[1, 1, 2], [1, 1, 1, 3], [2, 1]]
    (1 : Int) (some [3, 0, -1]) (by decide)
  exact ⟨g, hg, hlinked, hstep⟩

end Graph

end SpeechTransducer.Hotword
