import SpeechTransducer.Hotword.Graph
import SpeechTransducer.Proofs.Hotword.Lines
import SpeechTransducer.Proofs.Number.Literals

/-!
When the rewards of hotword lines are finite. A line may name a reward that is infinite, no number
at all, or too large for a number, and all of these are read as rewards: the scores are finite if
and only if every line that gives a phrase ends with a reward that is in range, or names none.
-/

namespace SpeechTransducer.Hotword

/-- A line has words, and the table has the symbols that they split into. -/
def HasPhrase (unit : ModelingUnit) (table : SymbolTable) (splitter : Option Splitter)
    (line : String) : Prop :=
  phraseWords line ≠ [] ∧ ∃ symbols, Splits splitter unit (phraseWords line) symbols ∧
    ∀ symbol ∈ symbols, table.contains symbol = true

variable {unit : ModelingUnit} {table : SymbolTable} {splitter : Option Splitter}
  {lines : List String} {line : String} {phrases : List Phrase} {literal : Number.Literal}

theorem counted_of_mem_rewards (h : literal ∈ rewards line) : literal.Counted := by
  obtain ⟨item, -, hitem⟩ := List.mem_filterMap.mp h
  rw [itemReward?.eq_def] at hitem
  split at hitem
  · exact Number.counted_of_readLiteral hitem
  · cases hitem

theorem isFinite_lineReward (line : String) : (lineReward line).isFinite = true ↔
    ∀ literal ∈ (rewards line).getLast?, literal.InRange := by
  rw [lineReward]
  cases hlast : (rewards line).getLast? with
  | none => exact iff_of_true (by decide +kernel) (by simp)
  | some literal =>
      have hcounted := counted_of_mem_rewards (List.mem_of_getLast? hlast)
      rw [Option.elim_some, Number.isFinite_toFloat hcounted]
      simp

theorem linePhrase_some {p : Phrase} (h : linePhrase unit table splitter line = .ok (some p)) :
    HasPhrase unit table splitter line ∧ p.score = lineReward line := by
  obtain ⟨-, hnone⟩ | ⟨symbols, hne, hsymbols, hphrase⟩ := linePhrase_cases h
  · cases hnone
  · split at hphrase
    · rename_i hknown
      rw [List.all_eq_true] at hknown
      exact ⟨⟨hne, symbols, hsymbols, hknown⟩, by rw [Option.some.inj hphrase]⟩
    · cases hphrase

theorem HasPhrase.linePhrase (h : HasPhrase unit table splitter line) :
    ∃ p, linePhrase unit table splitter line = .ok (some p) := by
  obtain ⟨hne, symbols, hsymbols, hknown⟩ := h
  refine ⟨⟨symbols.filterMap table.id?, lineReward line⟩, ?_⟩
  rw [Hotword.linePhrase, if_neg (mt List.isEmpty_iff.mp hne),
    phraseSymbols_eq_ok_iff.mpr hsymbols, Except.map, if_pos (List.all_eq_true.mpr hknown)]

/-- The scores are finite if and only if the lines that give phrases name rewards in range. -/
theorem finite_scores_iff (h : (encode unit.name table splitter lines).2 = .ok phrases) :
    (∀ p ∈ phrases, p.score.isFinite = true) ↔
      ∀ line ∈ lines, HasPhrase unit table splitter line →
        ∀ literal ∈ (rewards line).getLast?, literal.InRange := by
  constructor
  · intro hfinite line hline hphrase
    obtain ⟨p, hp⟩ := hphrase.linePhrase
    rw [← isFinite_lineReward, ← (linePhrase_some hp).2]
    exact hfinite p ((mem_phrases_iff h).mpr ⟨line, hline, hp⟩)
  · intro hrange p hp
    obtain ⟨line, hline, hphrase⟩ := (mem_phrases_iff h).mp hp
    obtain ⟨hhas, hscore⟩ := linePhrase_some hphrase
    rw [hscore, isFinite_lineReward]
    exact hrange line hline hhas

theorem finite_scores_iff_overruled : ∃ phrases,
    (encode ModelingUnit.character.name (.ofPairs [(1, "a"), (2, "b")]) none
      ["a :1e999 :9", "b", "c :nan"]).2 = .ok phrases ∧
    phrases.map (·.tokens) = [[1], [2]] ∧ ∀ p ∈ phrases, p.score.isFinite = true := by
  have hnine : Number.Literal.InRange (.decimal false 9 1 0) := by
    have hsmall : ((9 : Nat) * 10 ^ (0 : Int) : ℚ) < 2 ^ (4 : Int) := by norm_num
    have hpow : (2 : ℚ) ^ (4 : Int) ≤ 2 ^ (1023 : Int) :=
      zpow_le_zpow_right₀ (by norm_num) (by norm_num)
    exact (hsmall.trans_le hpow).trans_le Number.leastInfinite_between.1
  have hlast : (rewards "a :1e999 :9").getLast? = some (.decimal false 9 1 0) := by decide +kernel
  have hnone : (rewards "b").getLast? = none := by decide +kernel
  have hphrases : (encode ModelingUnit.character.name (.ofPairs [(1, "a"), (2, "b")]) none
      ["a :1e999 :9", "b", "c :nan"]).2 =
        .ok [⟨[1], lineReward "a :1e999 :9"⟩, ⟨[2], lineReward "b"⟩] := by
    rw [encode_phrases]
    rfl
  refine ⟨_, hphrases, rfl, (finite_scores_iff hphrases).mpr ?_⟩
  simp only [List.forall_mem_cons, hlast, hnone]
  refine ⟨?_, ?_, ?_, nofun⟩
  · rintro - literal hliteral
    exact Option.some.inj hliteral ▸ hnine
  · rintro - literal hliteral
    cases hliteral
  · rintro ⟨-, symbols, hsymbols, hknown⟩
    obtain rfl := Except.ok.inj (phraseSymbols_eq_ok_iff.mpr hsymbols)
    exact absurd (hknown "c" (by decide)) (by decide)

/-- A line may name an infinite reward, and the graph of its phrase then hands it out. -/
theorem encode_infinite : ∃ phrases g,
    (encode "cjkchar" (.ofPairs [(5, "a")]) none ["a :inf"]).2 = .ok phrases ∧
      (∃ p ∈ phrases, p.score.isFinite = false) ∧
      Graph.ofPhrases (phrases.map (·.tokens)) 1.5 (some (phrases.map (·.score))) = .ok g ∧
      (g.step true Graph.root 5).1.isFinite = false := by
  refine ⟨[⟨[5], lineReward "a :inf"⟩], _, ?_, ⟨_, List.mem_cons_self, ?_⟩, rfl, ?_⟩
  · exact (encode_phrases .character _ _ _).trans rfl
  · decide +kernel
  · decide +kernel

end SpeechTransducer.Hotword
