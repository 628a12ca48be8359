import SpeechTransducer.Proofs.Search.Chunks
import SpeechTransducer.Proofs.Search.Mirrored
import SpeechTransducer.Proofs.Search.Rewards

/-!
Beam search that replays itself without rewards. Beside the paths it keeps the same paths with the
scores that they would have if nothing were ever earned: the extensions are chosen by the scores
with rewards, and the same extensions of the same paths are then scored and merged once more. The
calls to the networks are those of the search alone. Whatever a path has earned is exactly what its
two scores are apart.
-/

namespace SpeechTransducer.Search.Beam

variable {σ S : Type}

/-- The paths of a search, and the same paths as they score without rewards. -/
structure Replay (S : Type) where
  paths : Hypotheses S
  plain : Hypotheses S

namespace Replay

section

variable [Zero S]

/-- An extension with the score that other rows have in its place. -/
def rescore (rows : List (List S)) (c : Candidate S) : Candidate S :=
  { c with score := (rows.getD c.path []).getD c.token 0 }

variable [Add S] [Sub S] [BEq S] [LT S] [DecidableLT S] [LogScale S]

/-- The paths that follow the ranked ones, and what the chosen extensions come to without
rewards. -/
def following (b : Settings) (graph : Option (Hotword.Graph S)) (t : Int) (r : Replay S)
    (logits : List (List S)) : Except Fault (Replay S) := do
  let ranked := r.paths.top b.width
  let rows ← scoreRows ranked logits
  let chosen := best b.width (candidates rows)
  let paths ← successors b graph t ranked chosen
  let plainRanked := ranked.filterMap fun h => r.plain.get? h.tokens
  let plainRows ← scoreRows plainRanked logits
  let plain ← successors b none t plainRanked (chosen.map (rescore plainRows))
  return { paths, plain }

def decodeFrame (net : Network σ S) (b : Settings) (graph : Option (Hotword.Graph S))
    (isFirst : Bool) (t : Int) (frame : List S) (r : Replay S) : Run σ S (Replay S) := do
  let prediction ← predict net isFirst (r.paths.top b.width)
  let logits ← ask (net.join frame prediction)
  answered (r.following b graph t logits)

def decodeFrames (net : Network σ S) (b : Settings) (graph : Option (Hotword.Graph S)) :
    Bool → Int → List (List S) → Replay S → Run σ S (Replay S)
  | _, _, [], r => pure r
  | isFirst, t, frame :: frames, r =>
    match r.paths.top b.width with
    | [] => pure r
    | _ => do
      let r ← decodeFrame net b graph isFirst t frame r
      decodeFrames net b graph false (t + 1) frames r

/-- Decodes one chunk. Gives the paths without rewards for those that the state holds. -/
def decode (net : Network σ S) (b : Settings) (graph : Option (Hotword.Graph S))
    (out : Argument S) (plain : Hypotheses S) : Run σ S (Hypotheses S) := do
  let frames ← answered (encoderFrames out)
  let st ← look id
  match st.hyps with
  | none => throw .searchWithoutHypotheses
  | some paths =>
    if frames.isEmpty then return plain
    let r ← decodeFrames net b graph true st.frameOffset frames { paths, plain }
    change fun st => { st with frameOffset := st.frameOffset + frames.length }
    match r.paths.best? with
    | none => return plain
    | some h =>
      change fun st => { st with hyps := some r.paths }
      let rows ← ask (predict.predictAll net [h])
      change fun st =>
        { st with
          prediction := some rows
          tokens := h.tokens
          timestamps := h.timestamps
          trailingBlanks := h.trailingBlanks }
      return r.plain

/-- The path that a search starts with. -/
def start (net : Network σ S) (b : Settings) : Hypotheses S :=
  .ofList b.rule [{ tokens := List.replicate net.contextSize.toNat blankToken, score := 0 }]

def decodeChunks (net : Network σ S) (b : Settings) (graph : Option (Hotword.Graph S)) :
    List (Argument S) → Hypotheses S → Run σ S (Hypotheses S)
  | [], plain => pure plain
  | out :: rest, plain => do
    let plain ← decode net b graph out plain
    decodeChunks net b graph rest plain

end

variable {net : Network σ ℝ} {b : Settings} {graph : Option (Hotword.Graph ℝ)} {t : Int}

/-- All paths have different tokens, and differ from the plain ones by what they have earned. -/
structure Paired (net : Network σ ℝ) (graph : Option (Hotword.Graph ℝ)) (r : Replay ℝ) : Prop where
  nodup : (r.paths.entries.map (·.tokens)).Nodup
  entries : List.Forall₂ (Factored net graph) r.paths.entries r.plain.entries

theorem get?_factored {paths plains : List (Hypothesis ℝ)} {rule : MergeRule}
    (hall : List.Forall₂ (Factored net graph) paths plains)
    (hnodup : (paths.map (·.tokens)).Nodup) {h : Hypothesis ℝ} (hh : h ∈ paths) :
    ∃ plain, ({ rule, entries := plains } : Hypotheses ℝ).get? h.tokens = some plain ∧
      Factored net graph h plain := by
  simp only [Hypotheses.get?]
  induction hall with
  | nil => cases hh
  | @cons first firstPlain rest plains hfirst _ ih =>
      rw [List.map_cons, List.nodup_cons] at hnodup
      obtain rfl | hrest := List.mem_cons.mp hh
      · refine ⟨firstPlain, List.find?_cons_of_pos ?_, hfirst⟩
        exact beq_iff_eq.mpr hfirst.tokens
      · obtain ⟨plain, hplain, hpair⟩ := ih hnodup.2 hrest
        refine ⟨plain, ?_, hpair⟩
        rw [List.find?_cons_of_neg, hplain]
        rw [beq_iff_eq, hfirst.tokens]
        exact fun hsame => hnodup.1 (hsame ▸ List.mem_map_of_mem hrest)

theorem Paired.ranked {r : Replay ℝ} (h : Paired net graph r) (k : Int) :
    List.Forall₂ (Factored net graph) (r.paths.top k)
      ((r.paths.top k).filterMap fun h => r.plain.get? h.tokens) := by
  have hget (path : Hypothesis ℝ) (hpath : path ∈ r.paths.top k) :
      ∃ plain, r.plain.get? path.tokens = some plain ∧ Factored net graph path plain :=
    get?_factored h.entries h.nodup (mem_of_mem_top hpath)
  generalize r.paths.top k = ranked at hget ⊢
  induction ranked with
  | nil => exact .nil
  | cons path rest ih =>
      obtain ⟨plain, hplain, hpair⟩ := hget path List.mem_cons_self
      rw [List.filterMap_cons_some (f := fun h : Hypothesis ℝ => r.plain.get? h.tokens) hplain]
      exact .cons hpair (ih fun path hpath => hget path (List.mem_cons_of_mem _ hpath))

/-- The scores of paths on top of rows. -/
def totals (paths : List (Hypothesis ℝ)) (rows : List (List ℝ)) : List (List ℝ) :=
  List.zipWith (fun path row => row.map (· + path.score)) paths rows

theorem extensionScores_real {row : List ℝ} {path : Hypothesis ℝ} {scores : List ℝ}
    (h : extensionScores path row = .ok scores) :
    ∃ normalized : List ℝ, ∀ path : Hypothesis ℝ,
      extensionScores path row = .ok (normalized.map (· + path.score)) := by
  rw [extensionScores] at h
  split at h
  · rename_i normalized hsoft
    refine ⟨normalized, fun path => ?_⟩
    rw [extensionScores, hsoft]
    rfl
  · cases h

/-- Whatever the scores of the paths are, the exact scores of their extensions are on top of the
same rows. -/
theorem mapM_extensionScores_real {ranked : List (Hypothesis ℝ)} {logits rows : List (List ℝ)}
    (h : (ranked.zip logits).mapM (fun p => extensionScores p.1 p.2) = .ok rows) :
    ∃ normalized, rows = totals ranked normalized ∧ ∀ plains : List (Hypothesis ℝ),
      plains.length = ranked.length →
        (plains.zip logits).mapM (fun p => extensionScores p.1 p.2) =
          .ok (totals plains normalized) := by
  induction ranked generalizing logits rows with
  | nil =>
      refine ⟨[], (Except.ok.inj h).symm, fun plains hlen => ?_⟩
      obtain rfl := List.length_eq_zero_iff.mp hlen
      rfl
  | cons path ranked ih =>
      cases logits with
      | nil =>
          refine ⟨[], (Except.ok.inj h).symm, fun plains _ => ?_⟩
          rw [List.zip_nil_right, totals, List.zipWith_nil_right]
          rfl
      | cons row logits =>
          rw [List.zip_cons_cons, List.mapM_cons] at h
          obtain ⟨scores, hscores, h⟩ := bind_inv h
          obtain ⟨rest, hrest, h⟩ := bind_inv h
          obtain rfl := Except.ok.inj h
          obtain ⟨first, hfirst⟩ := extensionScores_real hscores
          obtain ⟨normalized, rfl, hplains⟩ := ih hrest
          obtain rfl := Except.ok.inj ((hfirst path).symm.trans hscores)
          refine ⟨first :: normalized, rfl, fun plains hlen => ?_⟩
          obtain ⟨plain, plains, rfl⟩ := List.exists_cons_of_length_eq_add_one hlen
          rw [List.zip_cons_cons, List.mapM_cons, hfirst, hplains plains (Nat.succ.inj hlen)]
          rfl

/-- Rows that belong to paths also belong to the paths paired with them. -/
theorem owners_of_forall₂ {paths plains ranked : List (Hypothesis ℝ)} {logits : List (List ℝ)}
    (hall : List.Forall₂ (Factored net graph) paths plains)
    (h : owners paths logits = .ok ranked) :
    ∃ plainRanked, owners plains logits = .ok plainRanked ∧
      plainRanked.length = ranked.length := by
  obtain ⟨plainRanked, hplain⟩ : ∃ plainRanked, owners plains logits = .ok plainRanked := by
    obtain ⟨hlen, rfl⟩ | ⟨path, rfl, -⟩ := owners_inv h
    · exact ⟨plains, owners_of_length (hlen.trans hall.length_eq)⟩
    · obtain ⟨plain, rfl⟩ := List.length_eq_one_iff.mp hall.length_eq.symm
      exact ⟨_, rfl⟩
  exact ⟨plainRanked, hplain, (length_owners hplain).trans (length_owners h).symm⟩

theorem scoreRows_factored {paths plains : List (Hypothesis ℝ)} {logits rows : List (List ℝ)}
    (hall : List.Forall₂ (Factored net graph) paths plains)
    (h : scoreRows paths logits = .ok rows) :
    ∃ ranked plainRanked normalized, owners paths logits = .ok ranked ∧
      owners plains logits = .ok plainRanked ∧ rows = totals ranked normalized ∧
      scoreRows plains logits = .ok (totals plainRanked normalized) := by
  obtain ⟨ranked, hranked, hscores⟩ := bind_inv h
  obtain ⟨plainRanked, hplain, hlen⟩ := owners_of_forall₂ hall hranked
  obtain ⟨normalized, rfl, hplains⟩ := mapM_extensionScores_real hscores
  refine ⟨ranked, plainRanked, normalized, hranked, hplain, rfl, ?_⟩
  rw [scoreRows, hplain]
  exact hplains plainRanked hlen

/-- A row belongs to the path with its number, if there is one. -/
theorem eq_of_owners {paths ranked : List (Hypothesis ℝ)} {logits : List (List ℝ)} {i : Nat}
    {path owner : Hypothesis ℝ} (h : owners paths logits = .ok ranked)
    (hpath : paths[i]? = some path) (howner : ranked[i]? = some owner) : owner = path := by
  obtain ⟨-, rfl⟩ | ⟨only, rfl, rfl⟩ := owners_inv h
  · exact Option.some.inj (howner.symm.trans hpath)
  · rw [List.eq_of_mem_replicate (List.mem_of_getElem? howner),
      List.mem_singleton.mp (List.mem_of_getElem? hpath)]

theorem getElem?_totals {paths : List (Hypothesis ℝ)} {rows : List (List ℝ)} {i : Nat}
    {row : List ℝ} : (totals paths rows)[i]? = some row ↔
      ∃ path given, paths[i]? = some path ∧ rows[i]? = some given ∧
        given.map (· + path.score) = row :=
  List.getElem?_zipWith_eq_some

section

variable {paths plains ranked plainRanked : List (Hypothesis ℝ)} {logits rows : List (List ℝ)}
variable (hall : List.Forall₂ (Factored net graph) paths plains)
variable (hranked : owners paths logits = .ok ranked)
variable (hplainRanked : owners plains logits = .ok plainRanked)

include hall hranked hplainRanked

/-- In its place among the rows of the plain paths, an extension scores less by what the path has
earned. -/
theorem rescore_candidates {c : Candidate ℝ} (hc : c ∈ candidates (totals ranked rows))
    {path : Hypothesis ℝ} (hpath : paths[c.path]? = some path) :
    ∃ plain, plains[c.path]? = some plain ∧ Factored net graph path plain ∧
      c.score = (rescore (totals plainRanked rows) c).score +
        earned graph (path.tokens.drop net.contextSize.toNat) := by
  obtain ⟨row, hrow, hscore⟩ := mem_candidates.mp hc
  obtain ⟨owner, given, howner, hgiven, rfl⟩ := getElem?_totals.mp hrow
  rw [List.getElem?_map] at hscore
  obtain ⟨x, hx, hsum⟩ := Option.map_eq_some_iff.mp hscore
  obtain rfl := eq_of_owners hranked hpath howner
  obtain ⟨hlt, rfl⟩ := List.getElem?_eq_some_iff.mp hpath
  have hlt' : c.path < plains.length := hall.length_eq ▸ hlt
  have hplain := List.getElem?_eq_getElem hlt'
  have hpair : Factored net graph paths[c.path] plains[c.path] := hall.get hlt hlt'
  have hin : c.path < plainRanked.length := by
    rw [length_owners hplainRanked, ← length_owners hranked]
    exact (List.getElem?_eq_some_iff.mp howner).1
  have hplainOwner := List.getElem?_eq_getElem hin
  have hsame := eq_of_owners hplainRanked hplain hplainOwner
  have hplainRow := getElem?_totals.mpr ⟨_, _, hplainOwner, hgiven, rfl⟩
  have hrescored : (rescore (totals plainRanked rows) c).score = x + plains[c.path].score := by
    simp [rescore, List.getD_eq_getElem?_getD, hplainRow, hx, hsame]
  refine ⟨_, hplain, hpair, ?_⟩
  rw [hrescored, ← hsum, hpair.score, add_assoc]

/-- One more extension, with and without its reward. -/
theorem addSuccessor_factored {c : Candidate ℝ} (hc : c ∈ candidates (totals ranked rows))
    {before after plain : Hypotheses ℝ} (hrule : plain.rule = before.rule)
    (hentries : List.Forall₂ (Factored net graph) before.entries plain.entries)
    (h : successors.addSuccessor graph t paths before c = .ok after) :
    ∃ plain', successors.addSuccessor none t plains plain (rescore (totals plainRanked rows) c) =
        .ok plain' ∧ plain'.rule = after.rule ∧
      List.Forall₂ (Factored net graph) after.entries plain'.entries := by
  rw [successors.addSuccessor] at h
  split at h
  · rename_i path hpath
    obtain ⟨plainPath, hplainPath, hpair, hscore⟩ :=
      rescore_candidates hall hranked hplainRanked hc hpath
    have hplace : plains[(rescore (totals plainRanked rows) c).path]? = some plainPath := hplainPath
    rw [successors.addSuccessor, hplace]
    dsimp only
    cases hextend : extend graph t path c.token c.score with
    | error e =>
        rw [hextend] at h
        cases h
    | ok new =>
        rw [hextend] at h
        obtain rfl := Except.ok.inj h
        obtain ⟨newPlain, hplain, hnew⟩ := hpair.extend hscore hextend
        refine ⟨plain.add newPlain, ?_, hrule, ?_⟩
        · exact congrArg (Except.map plain.add) hplain
        · rw [Hypotheses.add, Hypotheses.add, hrule]
          exact hnew.addTo before.rule hentries
  · cases h

/-- The same extensions of the plain paths are merged the same way. -/
theorem successors_factored {chosen : List (Candidate ℝ)}
    (hchosen : ∀ c ∈ chosen, c ∈ candidates (totals ranked rows)) {hs : Hypotheses ℝ}
    (h : successors b graph t paths chosen = .ok hs) :
    ∃ plain,
      successors b none t plains (chosen.map (rescore (totals plainRanked rows))) = .ok plain ∧
      List.Forall₂ (Factored net graph) hs.entries plain.entries := by
  -- The paths merged so far stay paired; the ranked paths are the same throughout.
  have hfold (before plain : Hypotheses ℝ) (hrule : plain.rule = before.rule)
      (hentries : List.Forall₂ (Factored net graph) before.entries plain.entries)
      (h : chosen.foldlM (successors.addSuccessor graph t paths) before = .ok hs) :
      ∃ plain', (chosen.map (rescore (totals plainRanked rows))).foldlM
          (successors.addSuccessor none t plains) plain = .ok plain' ∧
        List.Forall₂ (Factored net graph) hs.entries plain'.entries := by
    clear * - hall hranked hplainRanked hchosen hrule hentries h
    induction chosen generalizing before plain with
    | nil =>
        obtain rfl := Except.ok.inj h
        exact ⟨plain, rfl, hentries⟩
    | cons c rest ih =>
        rw [List.foldlM_cons] at h
        obtain ⟨after, hafter, h⟩ := bind_inv h
        obtain ⟨next, hnext, hrule', hentries'⟩ := addSuccessor_factored hall hranked hplainRanked
          (hchosen c List.mem_cons_self) hrule hentries hafter
        obtain ⟨plain', hrest, hend⟩ :=
          ih (fun c hc => hchosen c (List.mem_cons_of_mem _ hc)) after next hrule' hentries' h
        refine ⟨plain', ?_, hend⟩
        rw [List.map_cons, List.foldlM_cons, hnext]
        exact hrest
  exact hfold { rule := b.rule } { rule := b.rule } rfl .nil h

end

/-- A frame follows the same paths as the search alone, and leaves all of them paired. -/
theorem following_ok {r : Replay ℝ} (hr : Paired net graph r) {logits : List (List ℝ)}
    {hs : Hypotheses ℝ}
    (h : Beam.following b graph t (r.paths.top b.width) logits = .ok hs) :
    ∃ r', r.following b graph t logits = .ok r' ∧ r'.paths = hs ∧ Paired net graph r' := by
  obtain ⟨rows, hrows, hsuccessors⟩ := following_inv h
  have hall := hr.ranked b.width
  obtain ⟨ranked, plainRanked, normalized, hranked, hplainRanked, rfl, hplainRows⟩ :=
    scoreRows_factored hall hrows
  obtain ⟨plain, hplain, hentries⟩ := successors_factored hall hranked hplainRanked
    (fun c hc => mem_of_mem_best hc) hsuccessors
  refine ⟨⟨hs, plain⟩, ?_, rfl, nodup_successors hsuccessors, hentries⟩
  simp only [following, bind, Except.bind, pure, Except.pure, hrows, hsuccessors, hplainRows,
    hplain]

theorem decodeFrame_mirrored {isFirst : Bool} {frame : List ℝ} {r : Replay ℝ} {s : Session σ ℝ}
    (hr : Paired net graph r) :
    Mirrored (Beam.decodeFrame net b graph isFirst t frame (r.paths.top b.width))
      (decodeFrame net b graph isFirst t frame r) s
      fun hs r' st => (r'.paths = hs ∧ Paired net graph r') ∧ Consumed s.state st := by
  have hpredict : Leaves (predict net isFirst (r.paths.top b.width)) s
      (fun _ s' => Consumed s.state s'.state) fun _ _ => True :=
    (predict_consumed isFirst _).mono (fun _ _ h => h.2) fun _ _ _ => trivial
  refine .bind_same (P := fun _ st => Consumed s.state st) hpredict ?_
  intro prediction s₁ hconsumed
  refine .bind_ask fun logits network => ?_
  have hanswer : Mirrored (answered (Beam.following b graph t (r.paths.top b.width) logits))
      (answered (r.following b graph t logits)) { s₁ with network }
      fun hs r' st => (r'.paths = hs ∧ Paired net graph r') ∧ Consumed s.state st := by
    refine .answered fun hs hhs => ?_
    obtain ⟨r', hr', hpaired⟩ := following_ok hr hhs
    exact ⟨r', hr', hpaired, hconsumed⟩
  -- The search scores and follows in two steps, the replay in one.
  rw [Beam.following] at hanswer
  cases hrows : scoreRows (r.paths.top b.width) logits with
  | error e => trivial
  | ok rows =>
      rw [hrows] at hanswer
      exact hanswer

theorem decodeFrames_mirrored {isFirst : Bool} {frames : List (List ℝ)} {r : Replay ℝ}
    {s : Session σ ℝ} (hr : Paired net graph r) :
    Mirrored (Beam.decodeFrames net b graph isFirst t frames r.paths)
      (decodeFrames net b graph isFirst t frames r) s
      fun hs r' st => (r'.paths = hs ∧ Paired net graph r') ∧ Consumed s.state st := by
  induction frames generalizing isFirst t r s with
  | nil => exact .pure ⟨⟨rfl, hr⟩, .refl _⟩
  | cons frame frames ih =>
      rw [Beam.decodeFrames, decodeFrames]
      cases htop : r.paths.top b.width with
      | nil => exact .pure ⟨⟨rfl, hr⟩, .refl _⟩
      | cons path rest =>
          dsimp only
          rw [← htop]
          refine (decodeFrame_mirrored hr).bind ?_
          rintro _ r' s' ⟨⟨rfl, hr'⟩, hconsumed⟩
          refine (ih hr').mono ?_ fun _ _ _ => trivial
          rintro hs s'' ⟨r'', hrun, hend, hrest⟩
          exact ⟨r'', hrun, hend, hconsumed.trans hrest⟩

/-- The paths that a search holds, with those that score without rewards. -/
def Holding (net : Network σ ℝ) (graph : Option (Hotword.Graph ℝ)) (plain : Hypotheses ℝ)
    (st : State ℝ) : Prop :=
  ∃ paths, st.hyps = some paths ∧ Paired net graph { paths, plain }

/-- The blanks of the initial context have earned nothing. -/
theorem holding_start :
    Holding net graph (start net b) ((Beam.start net b).atRoot graph) := by
  refine ⟨_, hyps_start graph, List.nodup_singleton _, .cons ⟨rfl, ?_, ?_⟩ .nil⟩
  · rintro g rfl
    have hall : AllLocated net g ((Beam.start net b).atRoot (some g)) := located_start g
    obtain ⟨hs, hhyps, hlocated⟩ := hall
    obtain rfl := Option.some.inj ((hyps_start (some g)).symm.trans hhyps)
    exact hlocated _ (List.mem_singleton_self _)
  · have hdrop : (List.replicate net.contextSize.toNat blankToken).drop
        net.contextSize.toNat = [] := List.drop_of_length_le List.length_replicate.le
    have hnothing : earned graph [] = 0 := by cases graph <;> rfl
    have hscore : (0 : ℝ) = 0 + earned graph ((List.replicate net.contextSize.toNat
        blankToken).drop net.contextSize.toNat) := by
      rw [hdrop, hnothing, add_zero]
    exact hscore

theorem decode_mirrored (out : Argument ℝ) {plain : Hypotheses ℝ} {s : Session σ ℝ}
    (h : Holding net graph plain s.state) :
    Mirrored (Beam.decode net b graph out) (decode net b graph out plain) s
      fun _ plain' st => Holding net graph plain' st := by
  obtain ⟨paths, hhyps, hpaired⟩ := h
  refine .bind_answered fun frames => .bind_look ?_
  rw [id, hhyps]
  dsimp only
  split
  · exact .pure ⟨paths, hhyps, hpaired⟩
  · refine (decodeFrames_mirrored hpaired).bind ?_
    rintro _ r s' ⟨⟨rfl, hr⟩, hconsumed⟩
    refine .bind_change ?_
    cases hbest : r.paths.best? with
    | none => exact .pure ⟨paths, hconsumed.hyps.trans hhyps, hpaired⟩
    | some h =>
        refine .bind_change (.bind_ask fun rows network => ?_)
        exact ⟨r.plain, rfl, r.paths, rfl, hr⟩

theorem decodeChunks_mirrored (outs : List (Argument ℝ)) {plain : Hypotheses ℝ} {s : Session σ ℝ}
    (h : Holding net graph plain s.state) :
    Mirrored (Beam.decodeChunks net b graph outs) (decodeChunks net b graph outs plain) s
      fun _ plain' st => Holding net graph plain' st := by
  induction outs generalizing plain s with
  | nil => exact .pure h
  | cons out outs ih =>
      refine (decode_mirrored out h).bind ?_
      intro _ plain' s' h'
      exact ih h'

end Replay

/-- Every path of a search from the root scores what it would score without rewards and what its
tokens, without the blanks of the initial context, have earned. Without rewards it scores what the
replay of the search gives it: the same extensions of the same paths, merged by the same rule. -/
theorem decodeChunks_factored (net : Network σ ℝ) (b : Settings) (graph : Option (Hotword.Graph ℝ))
    (outs : List (Argument ℝ)) (network : σ) (s' : Session σ ℝ)
    (hrun : decodeChunks net b graph outs ⟨network, (start net b).atRoot graph⟩ = .ok () s') :
    ∃ hs plain, s'.state.hyps = some hs ∧
      Replay.decodeChunks net b graph outs (Replay.start net b)
        ⟨network, (start net b).atRoot graph⟩ = .ok plain s' ∧
      List.Forall₂ (fun h own => own.tokens = h.tokens ∧
        h.score = own.score + earned graph (h.tokens.drop net.contextSize.toNat))
        hs.entries plain.entries := by
  obtain ⟨plain, hreplay, hs, hhyps, hpaired⟩ :=
    (Replay.decodeChunks_mirrored outs (s := ⟨network, _⟩) Replay.holding_start).of_ok hrun
  exact ⟨hs, plain, hhyps, hreplay, hpaired.entries.imp fun _ _ h => ⟨h.tokens, h.score⟩⟩

theorem decodeChunks_factored_phrase :
    let net := addingNetwork (Int.cast : Int → ℝ) 4
    let b : Settings := ⟨3, .logSumExp⟩
    let graph := Hotword.Graph.ofWeighted [([3, 1], (2 : ℝ))]
    let outs : List (Argument ℝ) :=
      [.array { shape := [1, 2, 4], data := #[0, 0, 0, 3, 1, 1, 0, 0] },
        .array { shape := [1, 1, 4], data := #[0, 2, 0, 1] }]
    ∃ s' hs plain, decodeChunks net b (some graph) outs
        ⟨(), (start net b).atRoot (some graph)⟩ = .ok () s' ∧ s'.state.hyps = some hs ∧
      Replay.decodeChunks net b (some graph) outs (Replay.start net b)
        ⟨(), (start net b).atRoot (some graph)⟩ = .ok plain s' ∧
      List.Forall₂ (fun h own => own.tokens = h.tokens ∧
        h.score = own.score + earned (some graph) (h.tokens.drop 2)) hs.entries plain.entries := by
  intro net b graph outs
  have houts : Chunks outs _ := .cons rfl (.cons rfl .nil)
  have hgraph : Anchored (some graph) := by
    intro g hg
    obtain rfl := Option.some.inj hg
    exact ⟨_, rfl, by decide⟩
  have hnet : net.Responding 4 := addingNetwork_responding Int.cast (by decide) (by decide)
  have hyields : Yields (decodeChunks net b (some graph) outs)
      ⟨(), (start net b).atRoot (some graph)⟩ fun _ s' => Sound net 4 (some graph) s'.state :=
    decodeChunks_yields hnet hgraph houts (sound_start hgraph (some graph))
  obtain ⟨_, s', hrun, -⟩ := hyields
  obtain ⟨hs, plain, hend⟩ := decodeChunks_factored net b (some graph) outs () s' hrun
  exact ⟨s', hs, plain, hrun, hend⟩

end SpeechTransducer.Search.Beam
