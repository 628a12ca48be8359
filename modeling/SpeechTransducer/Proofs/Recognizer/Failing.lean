import SpeechTransducer.Proofs.Recognizer.Readings
import SpeechTransducer.Proofs.Search.Interrupted

/-!
Decodings that fail. Before the window of the next call has been read, a failure leaves the stream
as it was. After that the stream has passed the window, whatever the networks do: the frames up to
the next window are never decoded, while the encoder's states stay those of the call before. Of the
search there stays what it had written down until it failed.
-/

namespace SpeechTransducer

variable {σ S : Type}

section

variable [Zero S]

/-- The window that the next decoding reads. -/
def Recognizer.window (r : Recognizer σ S) (st : Stream S) : Except Fault (Tensor S) :=
  if r.isReady st then st.frames r.frontEnd st.processed r.model.segment
  else .error (.streamNotReady st.processed st.ready r.model.segment)

theorem window_inv {r : Recognizer σ S} {st : Stream S} {features : Tensor S}
    (h : r.window st = .ok features) :
    r.isReady st = true ∧ st.frames r.frontEnd st.processed r.model.segment = .ok features := by
  rw [Recognizer.window] at h
  split at h
  · exact ⟨‹_›, h⟩
  · cases h

/-- The frames that the encoder makes of a window. -/
def Recognizer.encoded (r : Recognizer σ S) (s : Session σ S) (features : Tensor S) :
    Except Fault (List (List S)) :=
  match r.model.encode features s.stream.encoderStates s.network with
  | .ok (out, _) _ => Search.encoderFrames out
  | .error f _ => .error f

end

variable [Zero S] [Add S] [Sub S] [BEq S] [LT S] [DecidableLT S] [LogScale S]
variable {r : Recognizer σ S} {s s' : Session σ S} {e : Fault}

theorem decode_of_unread {f : Fault} (h : r.window s.stream = .error f) :
    r.decode s = .error f s := by
  rw [Recognizer.window] at h
  rw [Recognizer.decode]
  cases hready : r.isReady s.stream with
  | false =>
      rw [hready] at h
      obtain rfl := Except.error.inj h
      rfl
  | true =>
      rw [hready] at h
      have hframes : s.stream.frames r.frontEnd s.stream.processed r.model.segment = .error f := h
      simp only [hframes]
      rfl

theorem decode_of_read {features : Tensor S} (h : r.window s.stream = .ok features) :
    Search.Leaves r.decode s (fun _ _ => True) fun e s' =>
      s'.stream =
        { s.stream with
          processed := s.stream.processed + r.model.offset
          search := s'.stream.search } ∧
      (∀ f, r.encoded s features = .error f → e = f ∧ s'.stream.search = s.stream.search) ∧
      ∀ frames, r.encoded s features = .ok frames →
        r.method.Interrupted frames.length s.stream.search s'.stream.search := by
  obtain ⟨hready, hframes⟩ := window_inv h
  rw [Search.Leaves, Recognizer.decode, Recognizer.encoded, hready, hframes]
  dsimp only
  simp only [Bool.not_true, Bool.false_eq_true, if_false]
  cases r.model.encode features s.stream.encoderStates s.network with
  | error f network =>
      refine ⟨rfl, fun f' hf' => ⟨Except.error.inj hf', rfl⟩, fun frames hnone => ?_⟩
      cases hnone
  | ok answer network =>
      obtain ⟨out, states⟩ := answer
      dsimp only
      cases hout : Search.encoderFrames out with
      | error f =>
          rw [Search.Method.decode_of_error r.method hout]
          refine ⟨rfl, fun f' hf' => ⟨Except.error.inj hf', rfl⟩, fun frames hnone => ?_⟩
          cases hnone
      | ok frames =>
          have hleaves : Search.Leaves (r.method.decode r.model.toNetwork r.graph out)
              ⟨network, s.stream.search⟩ _ _ := Search.Method.decode_interrupted r.method hout
          cases hsearch : r.method.decode r.model.toNetwork r.graph out
              ⟨network, s.stream.search⟩ with
          | ok _ found => trivial
          | error f found =>
              refine ⟨rfl, fun f' hnone => (by cases hnone), fun frames' hframes' => ?_⟩
              obtain rfl := Except.ok.inj hframes'
              exact hleaves.of_error hsearch

/-- A decoding that fails leaves the stream as it was only if it could not read its window. Once the
window is read, the stream has passed it, with nothing else of the stream changed but its search:
this stays too if the encoder fails or its output is no sequence of frames. -/
theorem decode_failed (r : Recognizer σ S) (s s' : Session σ S) (e : Fault)
    (h : r.decode s = .error e s') :
    (∀ f, r.window s.stream = .error f → e = f ∧ s' = s) ∧
    (∀ features, r.window s.stream = .ok features →
      s'.stream =
        { s.stream with
          processed := s.stream.processed + r.model.offset
          search := s'.stream.search } ∧
      (∀ f, r.encoded s features = .error f → e = f ∧ s'.stream.search = s.stream.search) ∧
      ∀ frames, r.encoded s features = .ok frames →
        r.method.Interrupted frames.length s.stream.search s'.stream.search) ∧
    (r.model.offset ≠ 0 → (s'.stream = s.stream ↔ ∃ f, r.window s.stream = .error f)) := by
  have hunread (f : Fault) (hf : r.window s.stream = .error f) : e = f ∧ s' = s := by
    rw [decode_of_unread hf] at h
    cases h
    exact ⟨rfl, rfl⟩
  have hread (features : Tensor S) (hfeatures : r.window s.stream = .ok features) :=
    (decode_of_read hfeatures).of_error h
  refine ⟨hunread, hread, fun hoffset => ⟨fun hsame => ?_, fun ⟨f, hf⟩ => ?_⟩⟩
  · cases hwindow : r.window s.stream with
    | error f => exact ⟨f, rfl⟩
    | ok features =>
        have hprocessed := congrArg Stream.processed (hread features hwindow).1
        rw [hsame] at hprocessed
        dsimp only at hprocessed
        omega
  · rw [(hunread f hf).2]

/-- A recognizer whose encoder answers with an array that has no frames in it. -/
def garbled : Recognizer Unit Float :=
  { Conversation.steady with
    model :=
      { Conversation.steady.model with
        segment := 8
        offset := 4
        encode := fun _ states => pure (.array (Tensor.filled .float32 [3, 10] 0), states) }
    frontEnd := { Conversation.steady.frontEnd with window := 1, shift := 1 } }

theorem decode_failed_garbled :
    let silence : Argument Float := .array (Tensor.filled .float32 [28] 0)
    ∃ st e s', garbled.newStream = .ok st ∧
      let s := [.accept 16000 silence].foldl (Call.perform garbled) ⟨(), st⟩
      garbled.decode s = .error e s' ∧ s'.stream.search = s.stream.search ∧
        s'.stream ≠ s.stream := by
  intro silence
  have hnew : garbled.newStream = .ok { search := garbled.freshSearch } := rfl
  obtain ⟨st, hst, e, s', hdecode⟩ : ∃ st, garbled.newStream = .ok st ∧ ∃ e s',
      garbled.decode ([.accept 16000 silence].foldl (Call.perform garbled) ⟨(), st⟩) =
        .error e s' := ⟨_, rfl, _, _, rfl⟩
  obtain rfl := Except.ok.inj (hnew.symm.trans hst)
  obtain ⟨-, hread, hsame⟩ := decode_failed garbled _ s' e hdecode
  refine ⟨_, e, s', hnew, hdecode, ((hread _ rfl).2.1 _ rfl).2, fun hstream => ?_⟩
  obtain ⟨f, hf⟩ := (hsame (by decide)).mp hstream
  cases hf

theorem decode_failed_skips :
    let silence : Argument Float := .array (Tensor.filled .float32 [28] 0)
    ∃ st e s', garbled.newStream = .ok st ∧
      let s := [.accept 16000 silence].foldl (Call.perform garbled) ⟨(), st⟩
      garbled.decode s = .error e s' ∧ s.stream.processed = 0 ∧ s'.stream.processed = 4 ∧
        s'.stream.encoderStates = s.stream.encoderStates := by
  intro silence
  exact ⟨_, _, _, rfl, rfl, rfl, rfl, rfl⟩

end SpeechTransducer
