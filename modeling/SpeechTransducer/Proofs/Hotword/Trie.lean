import SpeechTransducer.Proofs.Hotword.Paths
import SpeechTransducer.Proofs.Hotword.Reward

/-!
The arena of phrases before links are set. A phrase is added token by token, and after every token
the arena is that of the phrases so far with the part of the last one that has been read: its nodes
are the beginnings, with the rewards that the list of phrases gives them.
-/

namespace SpeechTransducer.Hotword

variable {S : Type}

/-- The reward of the phrase that ends at a node, if one does. -/
def Node.own [Zero S] (n : Node S) : S := if n.isEnd then n.nodeScore else 0

/-- A node whose links have not been set. -/
structure Node.Unlinked [Zero S] (n : Node S) : Prop where
  fail : n.fail = 0
  output : n.output = none
  outputScore : n.outputScore = n.own

theorem Node.root_unlinked [Zero S] : (Node.root : Node S).Unlinked := ⟨rfl, rfl, rfl⟩

theorem isBeginning_extend {phrases : List (List Int × S)} {p u : List Int} {s : S} {t : Int} :
    IsBeginning ((phrases ++ [(p ++ [t], s)]).map (·.1)) u ↔
      u = p ++ [t] ∨ IsBeginning ((phrases ++ [(p, s)]).map (·.1)) u := by
  simp only [IsBeginning, List.map_append, List.map_cons, List.map_nil, List.mem_append,
    List.mem_singleton, or_and_right, exists_or, exists_eq_left, List.prefix_concat_iff]
  grind

private theorem not_concat_prefix {p : List Int} {t : Int} : ¬p ++ [t] <+: p := by
  intro h
  have hlen := h.length_le
  rw [List.length_append, List.length_singleton] at hlen
  omega

private theorem getElem?_concat {α : Type} {xs : List α} {x y : α} {i : Nat} :
    (xs ++ [x])[i]? = some y ↔ xs[i]? = some y ∨ i = xs.length ∧ x = y := by
  obtain h | h := Nat.lt_or_ge i xs.length
  · rw [List.getElem?_append_left h, or_iff_left fun hi => h.ne hi.1]
  · rw [List.getElem?_append_right h, List.getElem?_eq_none h, List.getElem?_singleton]
    grind

namespace Arena

section

variable [Zero S] [Add S] [LT S] [DecidableLT S]

/-- Goes on from a node along a token, and makes the child if there is none. Gives the child. -/
def enter (score : S) (nodes : Arena S) (i : Nat) (token : Int) (isEnd : Bool) : Arena S × Nat :=
  match (nodes.node i).child? token with
  | some c => (nodes.modify c fun n => n.shared (nodes.node i) score isEnd, c)
  | none =>
    ((nodes.modify i fun n => { n with next := n.next ++ [(token, nodes.size)] }).push
      ((nodes.node i).fresh token score isEnd), nodes.size)

theorem addTokens_cons (score : S) (nodes : Arena S) (i : Nat) (token : Int) (rest : List Int) :
    addTokens score nodes i (token :: rest) =
      addTokens score (enter score nodes i token rest.isEmpty).1
        (enter score nodes i token rest.isEmpty).2 rest := by
  rw [addTokens, enter]
  cases (nodes.node i).child? token <;> rfl

/-- The arena of some phrases: its nodes are their beginnings, those with the property `E` are whole
phrases, and the rewards are those of the list. -/
structure Grown (phrases : List (List Int × S)) (E : List Int → Prop) (nodes : Arena S)
    (paths : List (List Int)) : Prop extends Spells nodes paths where
  mem : ∀ u, u ∈ paths ↔ IsBeginning (phrases.map (·.1)) u
  isEnd : ∀ {i : Nat} {u : List Int}, paths[i]? = some u → ((nodes.node i).isEnd = true ↔ E u)
  ends : ∀ {u : List Int}, E u → u ∈ paths
  tokenScore : ∀ {i : Nat} {u : List Int}, paths[i]? = some u → u ≠ [] →
    reward? phrases u = some (nodes.node i).tokenScore
  nodeScore : ∀ {i : Nat} {u : List Int}, paths[i]? = some u →
    (nodes.node i).nodeScore = collected phrases u
  root_tokenScore : (nodes.node 0).tokenScore = 0

end

section

variable [Zero S] {nodes : Arena S} {paths : List (List Int)} {i : Nat} {p : List Int} {t : Int}

/-- The sequences depend on the children and levels only. -/
theorem Spells.congr {nodes' : Arena S} (h : Spells nodes paths) (size : nodes'.size = nodes.size)
    (next : ∀ i, (nodes'.node i).next = (nodes.node i).next)
    (level : ∀ i, (nodes'.node i).level = (nodes.node i).level) : Spells nodes' paths where
  size := h.size.trans size.symm
  nodup := h.nodup
  root := h.root
  next hi t c := by rw [next]; exact h.next hi t c
  once i := by rw [next]; exact h.once i
  level hi := by rw [level]; exact h.level hi
  closed := h.closed

/-- A new child stands for its parent's sequence with the token. -/
theorem Spells.push (h : Spells nodes paths) (hi : paths[i]? = some p) (hnew : p ++ [t] ∉ paths)
    (n : Node S) (next : n.next = []) (level : n.level = p.length + 1) :
    Spells ((nodes.modify i fun n => { n with next := n.next ++ [(t, nodes.size)] }).push n)
      (paths ++ [p ++ [t]]) := by
  have hlt := h.lt_size hi
  have hsize : (nodes.modify i fun n => { n with next := n.next ++ [(t, nodes.size)] }).size =
      nodes.size := Array.size_modify
  constructor
  case size => simp [h.size]
  case nodup =>
    rw [List.nodup_append]
    exact ⟨h.nodup, by simp, fun u hu v hv =>
      List.mem_singleton.mp hv ▸ fun huv => hnew (huv ▸ hu)⟩
  case root => exact getElem?_concat.mpr (.inl h.root)
  case next =>
    intro j u hj t' c
    rw [node_push, hsize, getElem?_concat]
    obtain hj | ⟨rfl, rfl⟩ := getElem?_concat.mp hj
    · rw [if_neg (h.lt_size hj).ne, node_modify]
      split
      · rename_i hij
        obtain rfl : p = u := Option.some.inj (hi.symm.trans (hij.1 ▸ hj))
        simp only [List.mem_append, h.next hj, List.mem_singleton, Prod.mk.injEq, h.size,
          List.append_cancel_left_eq, List.cons.injEq, and_true]
        tauto
      · rename_i hij
        rw [h.next hj, or_iff_left]
        intro hcase
        obtain ⟨rfl, hp⟩ := hcase
        obtain rfl : p = u := (List.append_inj' hp rfl).1
        exact hij ⟨h.injective hi hj, h.lt_size hj⟩
    · rw [if_pos h.size, next]
      simp only [List.not_mem_nil, false_iff, not_or, not_and]
      constructor
      · intro hc
        exact hnew (h.closed (List.mem_of_getElem? hc))
      · intro _ hc
        have hlen := congrArg List.length hc
        simp at hlen
  case once =>
    intro j
    rw [node_push]
    split
    · simp [next]
    · rw [node_modify]
      split
      · rename_i hij
        rw [List.nodup_append]
        refine ⟨h.once j, by simp, ?_⟩
        intro x hx y hy heq
        subst heq
        obtain rfl := List.mem_singleton.mp hy
        exact (h.lt_size ((h.next (hij.1 ▸ hi) _ _).mp hx)).false
      · exact h.once j
  case level =>
    intro j u hj
    rw [node_push, hsize]
    obtain hj | ⟨rfl, rfl⟩ := getElem?_concat.mp hj
    · rw [if_neg (h.lt_size hj).ne, node_modify]
      split <;> exact h.level hj
    · simp [if_pos h.size, level]
  case closed =>
    intro u t' hu
    rw [List.mem_append, List.mem_singleton] at hu
    rw [List.mem_append]
    obtain hu | hu := hu
    · exact .inl (h.closed hu)
    · obtain rfl : u = p := (List.append_inj' hu rfl).1
      exact .inl (List.mem_of_getElem? hi)

end

section

variable [Zero S] [Add S] [LT S] [DecidableLT S]
variable {phrases : List (List Int × S)} {E : List Int → Prop} {nodes : Arena S}
variable {paths : List (List Int)} {i c : Nat} {p : List Int} {s : S}

/-- Passing through a node that is there. -/
theorem Grown.shared (h : Grown (phrases ++ [(p, s)]) E nodes paths) (hi : paths[i]? = some p)
    {t : Int} (hc : paths[c]? = some (p ++ [t])) (isEnd : Bool) :
    Grown (phrases ++ [(p ++ [t], s)]) (fun u => E u ∨ isEnd = true ∧ u = p ++ [t])
      (nodes.modify c fun n => n.shared (nodes.node i) s isEnd) paths := by
  have hself : node (nodes.modify c fun n => n.shared (nodes.node i) s isEnd) c =
      (nodes.node c).shared (nodes.node i) s isEnd := node_modify_self _ _ (h.lt_size hc)
  have hother (j : Nat) (hj : j ≠ c) :
      node (nodes.modify c fun n => n.shared (nodes.node i) s isEnd) j = nodes.node j :=
    node_modify_of_ne _ _ hj
  -- the reward of the shared token before the last phrase came to it
  have hold : reward? phrases (p ++ [t]) = some (nodes.node c).tokenScore := by
    rw [← h.tokenScore hc (by simp), reward?_concat, if_neg not_concat_prefix]
  have hne {j : Nat} {u : List Int} (hj : paths[j]? = some u) (hjc : j ≠ c) : u ≠ p ++ [t] := by
    intro heq
    subst heq
    exact hjc (h.injective hj hc)
  constructor
  case toSpells =>
    refine h.toSpells.congr Array.size_modify ?_ ?_
    · intro j
      rw [node_modify]
      split <;> rfl
    · intro j
      rw [node_modify]
      split <;> rfl
  case mem =>
    intro u
    rw [isBeginning_extend, ← h.mem, or_iff_right_of_imp]
    intro heq
    subst heq
    exact List.mem_of_getElem? hc
  case isEnd =>
    intro j u hj
    by_cases hjc : j = c
    · subst hjc
      obtain rfl := Option.some.inj (hj.symm.trans hc)
      rw [hself, ← h.isEnd hc, Node.shared]
      simp [or_comm]
    · simp [hother j hjc, h.isEnd hj, hne hj hjc]
  case ends =>
    intro u hcase
    obtain hu | ⟨-, rfl⟩ := hcase
    · exact h.ends hu
    · exact List.mem_of_getElem? hc
  case tokenScore =>
    intro j u hj hu
    by_cases hjc : j = c
    · subst hjc
      obtain rfl := Option.some.inj (hj.symm.trans hc)
      rw [hself, reward?_extend_self, hold]
      rfl
    · rw [hother j hjc, reward?_extend (hne hj hjc), h.tokenScore hj hu]
  case nodeScore =>
    intro j u hj
    by_cases hjc : j = c
    · subst hjc
      obtain rfl := Option.some.inj (hj.symm.trans hc)
      rw [hself, collected_extend_self, hold, ← h.nodeScore hi]
      rfl
    · rw [hother j hjc, collected_extend (hne hj hjc), h.nodeScore hj]
  case root_tokenScore =>
    rw [hother 0 (h.ne_root hc (by simp)).symm, h.root_tokenScore]

/-- Going on to a node that is made for it. -/
theorem Grown.fresh (h : Grown (phrases ++ [(p, s)]) E nodes paths) (hi : paths[i]? = some p)
    {t : Int} (hnew : p ++ [t] ∉ paths) (isEnd : Bool) :
    Grown (phrases ++ [(p ++ [t], s)]) (fun u => E u ∨ isEnd = true ∧ u = p ++ [t])
      ((nodes.modify i fun n => { n with next := n.next ++ [(t, nodes.size)] }).push
        ((nodes.node i).fresh t s isEnd)) (paths ++ [p ++ [t]]) := by
  have hnone : reward? phrases (p ++ [t]) = none := by
    apply reward?_eq_none
    intro q hq hp
    refine hnew ((h.mem _).mpr (.inr ⟨q.1, ?_, hp⟩))
    simp only [List.map_append, List.mem_append, List.mem_map]
    exact .inl ⟨q, hq, rfl⟩
  have hne {j : Nat} {u : List Int} (hj : paths[j]? = some u) : u ≠ p ++ [t] := by
    intro heq
    subst heq
    exact hnew (List.mem_of_getElem? hj)
  have hkept {j : Nat} (hj : j < nodes.size) :
      ∃ next, node ((nodes.modify i fun n => { n with next := n.next ++ [(t, nodes.size)] }).push
        ((nodes.node i).fresh t s isEnd)) j = { nodes.node j with next } := by
    rw [node_push, if_neg (by rw [Array.size_modify]; exact hj.ne), node_modify]
    split
    · exact ⟨_, rfl⟩
    · exact ⟨(nodes.node j).next, rfl⟩
  have hlast : node ((nodes.modify i fun n => { n with next := n.next ++ [(t, nodes.size)] }).push
      ((nodes.node i).fresh t s isEnd)) paths.length = (nodes.node i).fresh t s isEnd := by
    rw [node_push, if_pos (by rw [Array.size_modify, h.size])]
  constructor
  case toSpells =>
    exact h.toSpells.push hi hnew _ rfl (by rw [Node.fresh, h.level hi])
  case mem =>
    intro u
    rw [isBeginning_extend, ← h.mem, List.mem_append, List.mem_singleton, or_comm]
  case isEnd =>
    intro j u hj
    obtain hj | ⟨rfl, rfl⟩ := getElem?_concat.mp hj
    · obtain ⟨next, hn⟩ := hkept (h.lt_size hj)
      simp [hn, h.isEnd hj, hne hj]
    · have hE : ¬E (p ++ [t]) := fun hE => hnew (h.ends hE)
      rw [hlast]
      simp [Node.fresh, hE]
  case ends =>
    intro u hu
    rw [List.mem_append, List.mem_singleton]
    exact hu.imp h.ends And.right
  case tokenScore =>
    intro j u hj hu
    obtain hj | ⟨rfl, rfl⟩ := getElem?_concat.mp hj
    · obtain ⟨next, hn⟩ := hkept (h.lt_size hj)
      rw [hn, reward?_extend (hne hj), h.tokenScore hj hu]
    · rw [hlast, reward?_extend_self, hnone]
      rfl
  case nodeScore =>
    intro j u hj
    obtain hj | ⟨rfl, rfl⟩ := getElem?_concat.mp hj
    · obtain ⟨next, hn⟩ := hkept (h.lt_size hj)
      rw [hn, collected_extend (hne hj), h.nodeScore hj]
    · rw [hlast, collected_extend_self, hnone, ← h.nodeScore hi]
      rfl
  case root_tokenScore =>
    obtain ⟨next, hn⟩ := hkept (h.lt_size h.root)
    rw [hn, h.root_tokenScore]

theorem Grown.congr_ends {E' : List Int → Prop} (h : Grown phrases E nodes paths)
    (hE : ∀ u, E u ↔ E' u) : Grown phrases E' nodes paths := by
  obtain rfl : E = E' := funext fun u => propext (hE u)
  exact h

/-- One token of a phrase. -/
theorem Grown.enter (h : Grown (phrases ++ [(p, s)]) E nodes paths) (hi : paths[i]? = some p)
    (t : Int) (isEnd : Bool) :
    ∃ paths', Grown (phrases ++ [(p ++ [t], s)]) (fun u => E u ∨ isEnd = true ∧ u = p ++ [t])
        (enter s nodes i t isEnd).1 paths' ∧
      paths'[(enter s nodes i t isEnd).2]? = some (p ++ [t]) := by
  cases hc : (nodes.node i).child? t with
  | some c =>
      have hc' := (h.child?_eq_some hi t c).mp hc
      rw [Arena.enter, hc]
      exact ⟨paths, h.shared hi hc' isEnd, hc'⟩
  | none =>
      have hnew := (h.child?_eq_none hi t).mp hc
      rw [Arena.enter, hc]
      exact ⟨_, h.fresh hi hnew isEnd, getElem?_concat.mpr (.inr ⟨h.size.symm, rfl⟩)⟩

/-- The rest of a phrase. The induction is on the tokens that are left; the part of the phrase that
has been read stands as the last phrase of the list. -/
theorem Grown.addTokens (h : Grown (phrases ++ [(p, s)]) E nodes paths) (hi : paths[i]? = some p)
    (rest : List Int) :
    ∃ paths', Grown (phrases ++ [(p ++ rest, s)]) (fun u => E u ∨ rest ≠ [] ∧ u = p ++ rest)
      (addTokens s nodes i rest) paths' := by
  induction rest generalizing E nodes paths i p with
  | nil =>
      refine ⟨paths, ?_⟩
      simpa [Arena.addTokens] using h
  | cons t rest ih =>
      obtain ⟨paths', h', hc⟩ := h.enter hi t rest.isEmpty
      obtain ⟨paths'', h''⟩ := ih h' hc
      refine ⟨paths'', ?_⟩
      rw [addTokens_cons, List.append_cons p t rest]
      refine h''.congr_ends fun u => ?_
      cases rest <;> simp

/-- A further phrase with no tokens yet. -/
theorem Grown.start (h : Grown phrases E nodes paths) (s : S) :
    Grown (phrases ++ [([], s)]) E nodes paths where
  toSpells := h.toSpells
  mem u := by
    rw [h.mem]
    simp only [IsBeginning, List.map_append, List.map_cons, List.map_nil, List.mem_append,
      List.mem_singleton, or_and_right, exists_or, exists_eq_left, List.prefix_nil]
    grind
  isEnd := h.isEnd
  ends := h.ends
  tokenScore hi hu := by rw [reward?_concat_nil hu, h.tokenScore hi hu]
  nodeScore hi := by rw [collected_concat_nil, h.nodeScore hi]
  root_tokenScore := h.root_tokenScore

theorem grown_root : Grown ([] : List (List Int × S)) (fun _ => False) #[.root] [[]] := by
  have hroot {i : Nat} {u : List Int} (hi : [([] : List Int)][i]? = some u) : i = 0 ∧ u = [] := by
    simpa [List.getElem?_singleton, eq_comm] using hi
  have hnode : ∀ i, node (#[.root] : Arena S) i = .root
    | 0 => rfl
    | _ + 1 => rfl
  constructor
  case toSpells =>
    constructor
    case size => rfl
    case nodup => simp
    case root => rfl
    case next =>
      intro i u _ t c
      rw [hnode]
      simp only [Node.root, List.not_mem_nil, false_iff]
      exact fun hc => by simpa using (hroot hc).2
    case once =>
      intro i
      rw [hnode]
      exact List.nodup_nil
    case level =>
      intro i u hi
      rw [hnode, (hroot hi).2]
      rfl
    case closed => simp
  case mem => simp [IsBeginning]
  case isEnd =>
    intro i u _
    rw [hnode]
    simp [Node.root]
  case ends => simp
  case tokenScore =>
    intro i u hi hu
    exact absurd (hroot hi).2 hu
  case nodeScore =>
    intro i u hi
    rw [hnode, (hroot hi).2]
    rfl
  case root_tokenScore => rfl

/-- All phrases. -/
theorem grown_ofPhrases (phrases : List (List Int × S)) :
    ∃ paths, Grown phrases (IsPhrase (phrases.map (·.1))) (ofPhrases phrases) paths := by
  induction phrases using List.reverseRecOn with
  | nil => exact ⟨_, grown_root.congr_ends (by simp [IsPhrase])⟩
  | append_singleton phrases p ih =>
      obtain ⟨paths, h⟩ := ih
      obtain ⟨paths', h'⟩ := (h.start p.2).addTokens h.root p.1
      refine ⟨paths', ?_⟩
      rw [ofPhrases, List.foldl_append, List.foldl_cons, List.foldl_nil, ← ofPhrases]
      refine h'.congr_ends fun u => ?_
      simp only [IsPhrase, List.map_append, List.map_cons, List.map_nil, List.mem_append,
        List.mem_singleton, List.nil_append]
      grind

end

section

variable [Zero S] [Add S] [LT S] [DecidableLT S]

theorem unlinked_enter {nodes : Arena S} (h : ∀ i, (nodes.node i).Unlinked) (s : S) (i : Nat)
    (t : Int) (isEnd : Bool) (j : Nat) : (node (enter s nodes i t isEnd).1 j).Unlinked := by
  rw [enter]
  cases (nodes.node i).child? t with
  | some c =>
      rw [node_modify]
      split
      · exact ⟨(h j).fail, (h j).output, rfl⟩
      · exact h j
  | none =>
      rw [node_push]
      split
      · exact ⟨rfl, rfl, rfl⟩
      · rw [node_modify]
        split
        · exact ⟨(h j).fail, (h j).output, (h j).outputScore⟩
        · exact h j

theorem unlinked_addTokens {nodes : Arena S} (h : ∀ i, (nodes.node i).Unlinked) (s : S) (i : Nat)
    (rest : List Int) (j : Nat) : (node (addTokens s nodes i rest) j).Unlinked := by
  induction rest generalizing nodes i with
  | nil => exact h j
  | cons t rest ih =>
      rw [addTokens_cons]
      exact ih (unlinked_enter h s i t _) _

/-- Adding phrases sets no links. -/
theorem unlinked_ofPhrases (phrases : List (List Int × S)) (j : Nat) :
    (node (ofPhrases phrases) j).Unlinked := by
  induction phrases using List.reverseRecOn generalizing j with
  | nil =>
      cases j with
      | zero => exact Node.root_unlinked
      | succ _ => exact Node.root_unlinked
  | append_singleton phrases p ih =>
      rw [ofPhrases, List.foldl_append, List.foldl_cons, List.foldl_nil, ← ofPhrases]
      exact unlinked_addTokens ih _ _ _ j

end

end Arena

end SpeechTransducer.Hotword
