import SpeechTransducer.Proofs.Conversation.Cutting
import SpeechTransducer.Proofs.Search.Located

/-!
Streams through any sequence of calls. A call that fails leaves the stream as far as it got, and the
next call goes on from there. Only two of the calls touch the search: decoding, which leaves every
path where its tokens lead in the hotword graph, and a restart, which begins with one path at the
root.
-/

namespace SpeechTransducer

open Search.Beam (AllLocated)

/-- The calls that a recognizer takes for a stream. -/
inductive Call (S : Type) where
  | accept (rate : Int) (samples : Argument S)
  | finish
  | decode
  | isEndpoint
  | transcript
  | restart

/-- What a step leaves behind, whether or not it goes through. -/
def leftBehind {ε τ α : Type} : EStateM.Result ε τ α → τ
  | .ok _ s => s
  | .error _ s => s

variable {σ S : Type} {r : Recognizer σ S} {s : Session σ S} {b : Search.Beam.Settings}
variable {g : Hotword.Graph S}

theorem search_withExtractor (st : Stream S)
    (result : EStateM.Result Fault (Audio.Extractor S) Unit) :
    (leftBehind (st.withExtractor result)).search = st.search := by
  cases result <;> rfl

theorem search_transcript [BEq S] [LT S] [DecidableLT S] [LE S] [DecidableLE S] [Countable S]
    [HMul Int S S] (st : Stream S) : (leftBehind (r.transcript st)).search = st.search := by
  rw [Recognizer.transcript]
  split
  · rfl
  · rename_i isOver _
    dsimp only
    cases isOver with
    | false => split <;> rfl
    | true => split <;> rfl

section

variable [Zero S] [Add S] [Sub S] [LT S] [DecidableLT S] [LogScale S]

theorem newStream_inv {st : Stream S} (h : r.newStream = .ok st) : st.search = r.freshSearch := by
  obtain ⟨_, -, h⟩ := bind_inv h
  obtain ⟨_, -, h⟩ := bind_inv h
  obtain ⟨_, -, h⟩ := bind_inv h
  obtain rfl := Except.ok.inj h
  rfl

variable [BEq S]

theorem decode_located (hmethod : r.method = .beam b) (hgraph : r.graph = some g)
    (h : AllLocated r.model.toNetwork g s.stream.search) :
    AllLocated r.model.toNetwork g (leftBehind (r.decode s)).stream.search := by
  rw [Recognizer.decode, hmethod, hgraph]
  dsimp only
  split
  · exact h
  · split
    · exact h
    · split
      · exact h
      · rename_i out states network hencode
        have hleaves : Search.Leaves
            (Search.Beam.decode r.model.toNetwork b (some g) out) ⟨network, s.stream.search⟩
            (fun _ s' => AllLocated r.model.toNetwork g s'.state)
            fun _ s' => AllLocated r.model.toNetwork g s'.state :=
          Search.Beam.decode_located out h
        split
        · exact hleaves.of_error ‹_›
        · exact hleaves.of_ok ‹_›

theorem freshSearch_located (hmethod : r.method = .beam b) (hgraph : r.graph = some g) :
    AllLocated r.model.toNetwork g r.freshSearch := by
  rw [Recognizer.freshSearch, hmethod, hgraph]
  exact Search.Beam.located_start g

end

variable [Zero S] [Add S] [Sub S] [BEq S] [LT S] [DecidableLT S] [LE S] [DecidableLE S]
variable [Countable S] [HMul Int S S] [LogScale S]

/-- The session that a call leaves behind. -/
def Call.perform (r : Recognizer σ S) (s : Session σ S) : Call S → Session σ S
  | .accept rate samples =>
    { s with stream := leftBehind (s.stream.accept r.frontEnd rate samples).2 }
  | .finish => { s with stream := leftBehind (Stream.finish r.frontEnd s.stream) }
  | .decode => leftBehind (r.decode s)
  | .isEndpoint => s
  | .transcript => { s with stream := leftBehind (r.transcript s.stream) }
  | .restart => { s with stream := r.restart s.stream }

theorem perform_located (hmethod : r.method = .beam b) (hgraph : r.graph = some g) (c : Call S)
    (h : AllLocated r.model.toNetwork g s.stream.search) :
    AllLocated r.model.toNetwork g (c.perform r s).stream.search := by
  cases c with
  | accept rate samples =>
      rw [Call.perform, Stream.accept]
      exact (search_withExtractor s.stream _).symm ▸ h
  | finish =>
      rw [Call.perform, Stream.finish]
      exact (search_withExtractor s.stream _).symm ▸ h
  | decode => exact decode_located hmethod hgraph h
  | isEndpoint => exact h
  | transcript =>
      rw [Call.perform]
      exact (search_transcript s.stream).symm ▸ h
  | restart => exact freshSearch_located hmethod hgraph

theorem perform_all_located (hmethod : r.method = .beam b) (hgraph : r.graph = some g)
    (calls : List (Call S)) (h : AllLocated r.model.toNetwork g s.stream.search) :
    AllLocated r.model.toNetwork g (calls.foldl (Call.perform r) s).stream.search := by
  induction calls generalizing s with
  | nil => exact h
  | cons c calls ih => exact ih (perform_located hmethod hgraph c h)

/-- Whatever is called for a stream, the node of each of its paths is the one that a walk from the
root along the path's own tokens ends in, and so a node of the graph. -/
theorem contextState_of_tokens (phrases : List (List Int)) (score : S) (scores : Option (List S))
    (hg : Hotword.Graph.ofPhrases phrases score scores = .ok g) (r : Recognizer σ S)
    (hmethod : r.method = .beam b) (hgraph : r.graph = some g) {st : Stream S}
    (hst : r.newStream = .ok st) (network : σ) (calls : List (Call S)) :
    ∃ hs, (calls.foldl (Call.perform r) ⟨network, st⟩).stream.search.hyps = some hs ∧
      ∀ h ∈ hs.entries,
        let here := g.arrive false (h.tokens.drop r.model.contextSize.toNat)
        h.contextState = some (here : Int) ∧ here < g.size := by
  have hstart : AllLocated r.model.toNetwork g st.search := by
    rw [newStream_inv hst]
    exact freshSearch_located hmethod hgraph
  obtain ⟨hs, hhyps, hlocated⟩ :=
    perform_all_located (s := ⟨network, st⟩) hmethod hgraph calls hstart
  obtain rfl := Hotword.Graph.ofPhrases_inv hg
  obtain ⟨paths, hcomplete⟩ :=
    Hotword.Arena.complete_ofWeighted (Hotword.weigh phrases score scores)
  exact ⟨hs, hhyps, fun h hh => ⟨(hlocated h hh).contextState, hcomplete.arrive_lt_size false _⟩⟩

theorem contextState_of_tokens_restarted :
    let g : Hotword.Graph Float := Hotword.Graph.ofWeighted [([1, 1], 1.5), ([1], 1.5)]
    let r : Recognizer Unit Float :=
      { Conversation.steady with method := .beam ⟨2, .logSumExp⟩, graph := some g }
    let silence : Argument Float := .array (Tensor.filled .float32 [16000] 0)
    let calls : List (Call Float) :=
      [.accept 16000 silence, .decode, .decode, .transcript, .restart, .decode]
    ∃ st, r.newStream = .ok st ∧
      ∃ hs, (calls.foldl (Call.perform r) ⟨(), st⟩).stream.search.hyps = some hs ∧
        ∀ h ∈ hs.entries,
          let here := g.arrive false (h.tokens.drop 2)
          h.contextState = some (here : Int) ∧ here < g.size := by
  intro g r silence calls
  have hg : Hotword.Graph.ofPhrases [[1, 1], [1]] 1.5 none = .ok g := rfl
  exact ⟨_, rfl, contextState_of_tokens [[1, 1], [1]] 1.5 none hg r rfl rfl rfl () calls⟩

end SpeechTransducer
