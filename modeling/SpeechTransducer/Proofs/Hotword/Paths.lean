import Mathlib.Data.List.DropRight
import SpeechTransducer.Hotword.Graph
import SpeechTransducer.Proofs.Hotword.Ending

/-!
The token sequences that nodes stand for. An arena spells a list of sequences if its nodes stand
for them, position by position, and the child of a node along a token stands for the sequence with
that token behind it. Links and rewards play no part in this.
-/

namespace SpeechTransducer.Hotword

variable {S : Type}

namespace Arena

section

variable [Zero S]

theorem node_modify (nodes : Arena S) (c : Nat) (f : Node S → Node S) (i : Nat) :
    node (nodes.modify c f) i =
      if c = i ∧ i < nodes.size then f (nodes.node i) else nodes.node i := by
  simp only [node, Array.getD_eq_getD_getElem?, Array.getElem?_modify]
  by_cases hi : i < nodes.size
  · by_cases hc : c = i <;> simp [hi, hc]
  · by_cases hc : c = i <;> simp [hi, hc]

theorem node_modify_of_ne (nodes : Arena S) (f : Node S → Node S) {c i : Nat} (h : i ≠ c) :
    node (nodes.modify c f) i = nodes.node i := by
  rw [node_modify, if_neg fun hc => h hc.1.symm]

theorem node_modify_self (nodes : Arena S) (f : Node S → Node S) {c : Nat} (h : c < nodes.size) :
    node (nodes.modify c f) c = f (nodes.node c) := by
  rw [node_modify, if_pos ⟨rfl, h⟩]

theorem node_push (nodes : Arena S) (n : Node S) (i : Nat) :
    node (nodes.push n) i = if i = nodes.size then n else nodes.node i := by
  simp only [node, Array.getD_eq_getD_getElem?, Array.getElem?_push]
  split <;> rfl

/-- The node that a token sequence leads to from a node, from child to child. -/
def follow (nodes : Arena S) : Nat → List Int → Option Nat
  | i, [] => some i
  | i, token :: rest => ((nodes.node i).child? token).bind fun c => follow nodes c rest

/-- The sequences that the nodes of an arena stand for. -/
structure Spells (nodes : Arena S) (paths : List (List Int)) : Prop where
  size : paths.length = nodes.size
  nodup : paths.Nodup
  root : paths[0]? = some []
  next : ∀ {i : Nat} {u : List Int}, paths[i]? = some u →
    ∀ t c, (t, c) ∈ (nodes.node i).next ↔ paths[c]? = some (u ++ [t])
  once : ∀ i, (nodes.node i).next.Nodup
  level : ∀ {i : Nat} {u : List Int}, paths[i]? = some u → (nodes.node i).level = u.length
  closed : ∀ {u : List Int} {t : Int}, u ++ [t] ∈ paths → u ∈ paths

end

namespace Spells

variable [Zero S] {nodes : Arena S} {paths : List (List Int)} {i j : Nat} {u v : List Int}

theorem lt_size (h : Spells nodes paths) (hi : paths[i]? = some u) : i < nodes.size := by
  rw [← h.size]
  exact (List.getElem?_eq_some_iff.mp hi).1

/-- A sequence leads to one node only. -/
theorem injective (h : Spells nodes paths) (hi : paths[i]? = some u) (hj : paths[j]? = some u) :
    i = j :=
  (List.getElem?_inj (List.getElem?_eq_some_iff.mp hi).1 h.nodup).mp (hi.trans hj.symm)

theorem exists_path (h : Spells nodes paths) (hi : i < nodes.size) : ∃ u, paths[i]? = some u := by
  rw [← h.size] at hi
  exact ⟨paths[i], List.getElem?_eq_getElem hi⟩

theorem ne_root (h : Spells nodes paths) (hi : paths[i]? = some u) (hu : u ≠ []) : i ≠ 0 := by
  intro heq
  subst heq
  exact hu (Option.some.inj (hi.symm.trans h.root))

theorem eq_root (h : Spells nodes paths) (hi : paths[i]? = some []) : i = 0 :=
  h.injective hi h.root

theorem nil_mem (h : Spells nodes paths) : [] ∈ paths := List.mem_of_getElem? h.root

/-- With a sequence all its beginnings lead to nodes. -/
theorem mem_of_prefix (h : Spells nodes paths) (hv : v ∈ paths) (hu : u <+: v) : u ∈ paths := by
  obtain ⟨r, rfl⟩ := hu
  induction r using List.reverseRecOn with
  | nil => simpa using hv
  | append_singleton r t ih =>
      rw [← List.append_assoc] at hv
      exact ih (h.closed hv)

theorem child?_eq_some (h : Spells nodes paths) (hi : paths[i]? = some u) (t : Int) (c : Nat) :
    (nodes.node i).child? t = some c ↔ paths[c]? = some (u ++ [t]) := by
  rw [← h.next hi, Node.child?]
  constructor
  · intro hc
    obtain ⟨l₁, l₂, hl, -⟩ := List.lookup_eq_some_iff.mp hc
    simp [hl]
  · intro hc
    cases hl : (nodes.node i).next.lookup t with
    | none =>
        have hne := List.lookup_eq_none_iff.mp hl (t, c) hc
        simp at hne
    | some d =>
        obtain ⟨l₁, l₂, hd, -⟩ := List.lookup_eq_some_iff.mp hl
        have hd : (t, d) ∈ (nodes.node i).next := by simp [hd]
        rw [h.injective ((h.next hi t d).mp hd) ((h.next hi t c).mp hc)]

theorem child?_eq_none (h : Spells nodes paths) (hi : paths[i]? = some u) (t : Int) :
    (nodes.node i).child? t = none ↔ u ++ [t] ∉ paths := by
  rw [Option.eq_none_iff_forall_ne_some, List.mem_iff_getElem?]
  simp only [ne_eq, h.child?_eq_some hi, not_exists]

/-- Following a sequence from a node ends where the node's own sequence goes on with it. -/
theorem follow_eq_some (h : Spells nodes paths) (r : List Int) (hi : paths[i]? = some u) :
    nodes.follow i r = some j ↔ paths[j]? = some (u ++ r) := by
  induction r generalizing i u with
  | nil =>
      rw [follow, Option.some_inj, List.append_nil]
      exact ⟨fun hij => hij ▸ hi, fun hj => h.injective hi hj⟩
  | cons t r ih =>
      rw [follow, List.append_cons]
      cases hc : (nodes.node i).child? t with
      | none =>
          have hmem := (h.child?_eq_none hi t).mp hc
          constructor
          · intro hj
            exact absurd hj (by simp)
          · intro hj
            exact absurd (h.mem_of_prefix (List.mem_of_getElem? hj) (List.prefix_append _ _)) hmem
      | some c => exact ih ((h.child?_eq_some hi t c).mp hc)

theorem follow_root (h : Spells nodes paths) (u : List Int) :
    nodes.follow 0 u = some i ↔ paths[i]? = some u := by
  simpa using h.follow_eq_some u h.root

end Spells

end Arena

end SpeechTransducer.Hotword
