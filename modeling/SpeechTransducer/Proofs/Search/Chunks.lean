import SpeechTransducer.Proofs.Search.Frames
import SpeechTransducer.Search.Method

/-!
Chunk after chunk. Networks that answer whatever they may be asked let every chunk go through, also
where the prediction network takes one row at a time: asking it row by row is the same search as
asking a network that takes all rows in one call.
-/

namespace SpeechTransducer.Search

variable {σ S : Type}

/-- The networks with a prediction network that takes all rows in one call. -/
def Network.inOneCall (net : Network σ S) : Network σ S :=
  { net with batched := true, predict := net.predictRows }

/-- Networks that answer every call. Several rows are given to the prediction network in one call
only if it takes them. -/
structure Network.Responding (net : Network σ S) (vocabulary : Nat) : Prop where
  contextSize : 1 ≤ net.contextSize
  vocabulary_pos : 0 < vocabulary
  vocabulary_le : vocabulary ≤ 2 ^ 63
  predict : ∀ rows network, net.batched = true →
    Yields (net.predict rows) network fun out _ => out.length = rows.length
  predict_row : ∀ row network, Yields (net.predict [row]) network fun out _ => out.length = 1
  join : ∀ frame rows network, Yields (net.join frame rows) network fun out _ =>
    out.length = rows.length ∧ ∀ row ∈ out, row.length = vocabulary

theorem Network.Responding.answering {net : Network σ S} {vocabulary : Nat}
    (h : net.Responding vocabulary) : net.inOneCall.Answering vocabulary where
  contextSize := h.contextSize
  vocabulary_pos := h.vocabulary_pos
  vocabulary_le := h.vocabulary_le
  predict rows network := yields_iff_leaves.mpr (Beam.length_predictRows
    (fun rows network hbatched => (h.predict rows network hbatched).leaves)
    (fun row network => (h.predict_row row network).leaves) rows network)
  join := h.join

namespace Beam

variable {net : Network σ S} {b : Settings} {graph : Option (Hotword.Graph S)}

theorem sound_inOneCall {vocabulary : Nat} {st : State S} :
    Sound net.inOneCall vocabulary graph st ↔ Sound net vocabulary graph st := by
  have hpath (h : Hypothesis S) :
      SoundPath net.inOneCall vocabulary graph h ↔ SoundPath net vocabulary graph h :=
    ⟨fun h => ⟨h.tokens, h.context⟩, fun h => ⟨h.tokens, h.context⟩⟩
  constructor
  · intro h
    exact ⟨h.tokens, by simpa only [hpath] using h.paths, h.prediction⟩
  · intro h
    exact ⟨h.tokens, by simpa only [hpath] using h.paths, h.prediction⟩

section

variable [Zero S] [Add S] [Sub S] [LT S] [DecidableLT S] [LogScale S]

theorem hyps_start (bound : Option (Hotword.Graph S)) :
    ((start net b).atRoot bound).hyps = some
      { rule := b.rule
        entries :=
          [{ tokens := List.replicate net.contextSize.toNat blankToken
             score := 0
             contextState := bound.map fun _ => (Hotword.Graph.root : Int) }] } := by
  cases bound <;> rfl

/-- A search that has decoded nothing, and whose path stands at the root of a hotword graph. -/
theorem sound_start {vocabulary : Nat} (hgraph : Anchored graph)
    (bound : Option (Hotword.Graph S)) :
    Sound net vocabulary graph ((start net b).atRoot bound) := by
  have hblanks : Padded net vocabulary (List.replicate net.contextSize.toNat blankToken) :=
    padded_blanks
  cases bound with
  | none =>
      refine ⟨hblanks, ⟨_, rfl, fun h hh => ?_⟩, fun rows hrows => by cases hrows⟩
      obtain rfl := List.mem_singleton.mp hh
      exact ⟨hblanks, by simp⟩
  | some _ =>
      refine ⟨hblanks, ⟨_, rfl, fun h hh => ?_⟩, fun rows hrows => by cases hrows⟩
      obtain rfl := List.mem_singleton.mp hh
      refine ⟨hblanks, fun g hg state hstate => ⟨0, ?_, (Option.some.inj hstate).symm⟩⟩
      obtain ⟨phrases, rfl, -⟩ := hgraph g hg
      obtain ⟨paths, hcomplete⟩ := Hotword.Arena.complete_ofWeighted phrases
      exact hcomplete.lt_size hcomplete.root

end

variable [Zero S] [Add S] [Sub S] [BEq S] [LT S] [DecidableLT S] [LogScale S]

theorem decodeFrame_inOneCall (isFirst : Bool) (t : Int) (frame : List S)
    (paths : List (Hypothesis S)) :
    decodeFrame net.inOneCall b graph isFirst t frame paths =
      decodeFrame net b graph isFirst t frame paths := rfl

theorem decodeFrames_inOneCall :
    decodeFrames net.inOneCall b graph = decodeFrames net b graph := by
  funext isFirst t frames hs
  induction frames generalizing isFirst t hs with
  | nil => rfl
  | cons frame frames ih =>
      rw [decodeFrames, decodeFrames]
      simp only [decodeFrame_inOneCall, ih]

theorem decode_inOneCall (out : Argument S) :
    decode net.inOneCall b graph out = decode net b graph out := by
  simp only [decode, decodeFrames_inOneCall]
  rfl

/-- Decodes chunks one after the other. -/
def decodeChunks (net : Network σ S) (b : Settings) (graph : Option (Hotword.Graph S)) :
    List (Argument S) → Run σ S Unit
  | [] => pure ()
  | out :: rest => do
    decode net b graph out
    decodeChunks net b graph rest

/-- Encoder outputs of the right shape, with the frames that they hold. -/
abbrev Chunks (outs : List (Argument S)) (chunks : List (List (List S))) : Prop :=
  List.Forall₂ (fun out frames => encoderFrames out = .ok frames) outs chunks

/-- Chunks of the right shape go through. -/
theorem decodeChunks_yields {vocabulary : Nat} (hnet : net.Responding vocabulary)
    (hgraph : Anchored graph) {outs : List (Argument S)} {chunks : List (List (List S))}
    (houts : Chunks outs chunks) {s : Session σ S} (h : Sound net vocabulary graph s.state) :
    Yields (decodeChunks net b graph outs) s fun _ s' => Sound net vocabulary graph s'.state := by
  induction houts generalizing s with
  | nil => exact .pure h
  | cons hframes _ ih =>
      have hdecode : Yields (decode net.inOneCall b graph _) s fun _ s' =>
          Sound net.inOneCall vocabulary graph s'.state :=
        decode_yields hnet.answering hgraph b hframes (sound_inOneCall.mpr h)
      rw [decode_inOneCall] at hdecode
      exact .bind hdecode fun _ s' h' => ih (sound_inOneCall.mp h')

end Beam

/-- Logits that are the sums of a frame and of a prediction row. -/
def addedRow [Zero S] [Add S] (vocabulary : Nat) (frame row : List S) : List S :=
  (List.range vocabulary).map fun i => frame.getD i 0 + row.getD i 0

/-- Networks that add what the last tokens stand for to the frame. -/
def addingNetwork [Zero S] [Add S] (own : Int → S) (vocabulary : Nat) : Network Unit S where
  contextSize := 2
  batched := false
  predict := fun rows => pure (rows.map (·.map own))
  join := fun frame rows => pure (rows.map (addedRow vocabulary frame))

theorem addingNetwork_responding [Zero S] [Add S] (own : Int → S) {vocabulary : Nat}
    (hpos : 0 < vocabulary) (hle : vocabulary ≤ 2 ^ 63) :
    (addingNetwork own vocabulary).Responding vocabulary where
  contextSize := by
    change (1 : Int) ≤ 2
    decide
  vocabulary_pos := hpos
  vocabulary_le := hle
  predict rows _ _ := ⟨_, _, rfl, List.length_map _⟩
  predict_row _ _ := ⟨_, _, rfl, rfl⟩
  join _ _ _ := ⟨_, _, rfl, List.length_map _, by simp [addedRow]⟩

end SpeechTransducer.Search
