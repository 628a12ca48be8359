import SpeechTransducer.Proofs.Hotword.Walk

/-!
The graph as a trie. Its nodes are the beginnings of the phrases, each of them once, and what a node
says of its beginning is what the list of phrases says of it: the children are the tokens that a
phrase goes on with, the level is the length, a whole phrase is marked, and the reward for the last
token is the largest one of the phrases that begin so. Scores need no order but the comparison that
the graph is built with; where that is no ranking of them, the reward is still that of a phrase.
-/

namespace SpeechTransducer.Hotword

variable {S : Type}

namespace Arena

/-- An arena that is the trie of some phrases, and the beginning that each of its nodes stands for.
The scores of the phrases with a beginning are given as `worth`. -/
structure IsTrie [Zero S] [LT S] (phrases : List (List Int)) (worth : List Int → Set S)
    (nodes : Arena S) (paths : List (List Int)) : Prop where
  size : paths.length = nodes.size
  nodup : paths.Nodup
  mem : ∀ u, u ∈ paths ↔ IsBeginning phrases u
  root : paths[0]? = some []
  child : ∀ {i : Nat} {u : List Int}, paths[i]? = some u →
    ∀ t c, (nodes.node i).child? t = some c ↔ paths[c]? = some (u ++ [t])
  present : ∀ {i : Nat} {u : List Int}, paths[i]? = some u →
    ∀ t, ((nodes.node i).child? t).isSome = true ↔ IsBeginning phrases (u ++ [t])
  level : ∀ {i : Nat} {u : List Int}, paths[i]? = some u → (nodes.node i).level = u.length
  isEnd : ∀ {i : Nat} {u : List Int}, paths[i]? = some u →
    ((nodes.node i).isEnd = true ↔ IsPhrase phrases u)
  tokenScore : ∀ {i : Nat} {u : List Int}, paths[i]? = some u → u ≠ [] →
    IsLargest (worth u) (nodes.node i).tokenScore
  root_tokenScore : (nodes.node 0).tokenScore = 0

variable [Zero S] [Add S] [LT S] [DecidableLT S]

theorem Grown.isTrie {phrases : List (List Int × S)} {nodes : Arena S} {paths : List (List Int)}
    (h : Grown phrases (IsPhrase (phrases.map (·.1))) nodes paths) :
    IsTrie (phrases.map (·.1)) (worths phrases) nodes paths where
  size := h.size
  nodup := h.nodup
  mem := h.mem
  root := h.root
  child := h.child?_eq_some
  present hi t := by
    rw [← h.mem, ← not_iff_not, Bool.not_eq_true, Option.isSome_eq_false_iff,
      Option.isNone_iff_eq_none, h.child?_eq_none hi]
  level := h.level
  isEnd := h.isEnd
  tokenScore hi hu := isLargest_of_reward? (h.tokenScore hi hu)
  root_tokenScore := h.root_tokenScore

end Arena

namespace Graph

/-- The nodes of a graph are the beginnings of its phrases, before and after the links are set. -/
theorem ofPhrases_isTrie [Zero S] [Add S] [LT S] [DecidableLT S] [BEq S]
    (phrases : List (List Int)) (score : S) (scores : Option (List S))
    (hcount : Counted phrases scores) :
    ∃ g, ofPhrases phrases score scores = .ok g ∧
      ∃ paths, Arena.IsTrie phrases (worths (weigh phrases score scores))
          (Arena.ofPhrases (weigh phrases score scores)) paths ∧
        Arena.IsTrie phrases (worths (weigh phrases score scores)) g.nodes paths := by
  obtain ⟨paths, h⟩ := Arena.grown_ofPhrases (weigh phrases score scores)
  have hbuilt := h.isTrie
  have hlinked := h.complete.toGrown.isTrie
  rw [weigh_phrases score hcount] at hbuilt hlinked
  exact ⟨_, ofPhrases_eq_ok score hcount, paths, hbuilt, hlinked⟩

/-- Phrases that share beginnings, that begin one another and that occur twice. -/
theorem ofPhrases_isTrie_nested :
    ∃ g, ofPhrases [[1, 2, 3], [1, 2], [], [2, 4], [1, 2]] (1 : Int) (some [0, 5, 7, -2, 3]) =
        .ok g ∧
      ∃ i, (g.nodes.node i).isEnd = true ∧ (g.nodes.node i).level = 2 ∧
        (g.nodes.node i).tokenScore = 5 ∧ ((g.nodes.node i).child? 3).isSome = true := by
  obtain ⟨g, hg, paths, -, h⟩ := ofPhrases_isTrie [[1, 2, 3], [1, 2], [], [2, 4], [1, 2]] (1 : Int)
    (some [0, 5, 7, -2, 3]) (by decide)
  obtain ⟨i, hi⟩ := List.mem_iff_getElem?.mp ((h.mem [1, 2]).mpr (by decide))
  have hlargest := isLargest_iff_isGreatest.mp (h.tokenScore hi (by decide))
  refine ⟨g, hg, i, (h.isEnd hi).mpr (by decide), h.level hi, ?_, (h.present hi 3).mpr (by decide)⟩
  exact hlargest.unique (reward?_eq_some_iff.mp (by decide))

/-- The root stands for the empty beginning, which every phrase has; no token leads to it, and it
rewards none. -/
theorem root_tokenScore_not_largest :
    ∃ g, ofPhrases [[1]] (1 : Int) none = .ok g ∧ g.find? [] = some root ∧
      IsBeginning [[1]] [] ∧ (g.nodes.node root).tokenScore = 0 ∧
      IsGreatest (worths (weigh [[1]] (1 : Int) none) []) 1 := by
  obtain ⟨paths, h⟩ := Arena.complete_ofWeighted (weigh [[1]] (1 : Int) none)
  refine ⟨_, rfl, rfl, by decide, h.root_tokenScore, reward?_eq_some_iff.mp (by decide)⟩

end Graph

end SpeechTransducer.Hotword
