import SpeechTransducer.Proofs.Recognizer.Calls
import SpeechTransducer.Proofs.Search.Carrying

/-!
Recognizers whose encoder is watched. The networks carry a record of what the encoder was given in
each of its calls and of the states it answered with. A recognizer does the same when it is watched.
-/

namespace SpeechTransducer

/-- A call of the encoder: what it was given, and the states of its answer if it answered. -/
structure Reading (S : Type) where
  features : Tensor S
  states : List (Tensor S)
  next : Option (List (Tensor S))

variable {σ S α : Type}

/-- A model whose encoder writes down its calls. -/
def Model.watched (m : Model σ S) : Model (σ × List (Reading S)) S where
  toNetwork := m.toNetwork.carrying
  bins := m.bins
  segment := m.segment
  offset := m.offset
  initialStates := m.initialStates
  encode := fun features states s =>
    match m.encode features states s.1 with
    | .ok answer network => .ok answer (network, s.2 ++ [⟨features, states, some answer.2⟩])
    | .error f network => .error f (network, s.2 ++ [⟨features, states, none⟩])

def Recognizer.watched (r : Recognizer σ S) : Recognizer (σ × List (Reading S)) S where
  model := r.model.watched
  symbols := r.symbols
  frontEnd := r.frontEnd
  method := r.method
  graph := r.graph
  endpoints := r.endpoints
  frameShift := r.frameShift

/-- A session without the record. -/
def Session.unwatched (s : Session (σ × List (Reading S)) S) : Session σ S :=
  ⟨s.network.1, s.stream⟩

/-- What becomes of a step, with a record beside it. -/
def recorded (record : List (Reading S)) : EStateM.Result Fault (Session σ S) α →
    EStateM.Result Fault (Session (σ × List (Reading S)) S) α
  | .ok a s => .ok a ⟨(s.network, record), s.stream⟩
  | .error f s => .error f ⟨(s.network, record), s.stream⟩

variable {r : Recognizer σ S} {s : Session (σ × List (Reading S)) S}

theorem leftBehind_recorded (record : List (Reading S))
    (result : EStateM.Result Fault (Session σ S) α) :
    leftBehind (recorded record result) =
      ⟨((leftBehind result).network, record), (leftBehind result).stream⟩ := by
  cases result <;> rfl

section

variable [Zero S] [Add S] [Sub S] [LT S] [DecidableLT S] [LogScale S]

theorem watched_restart (r : Recognizer σ S) (st : Stream S) :
    r.watched.restart st = r.restart st := by
  simp only [Recognizer.restart, Recognizer.freshSearch]
  dsimp only [Recognizer.watched, Model.watched]
  rw [Search.Method.carrying_start]

variable [BEq S]

theorem watched_decode_of_not_ready (h : r.isReady s.stream = false) :
    r.watched.decode s = recorded s.network.2 (r.decode s.unwatched) := by
  have hwatched : r.watched.isReady s.stream = false := h
  have hplain : r.isReady s.unwatched.stream = false := h
  simp only [Recognizer.decode, hwatched, hplain, Bool.not_false, if_true]
  rfl

theorem watched_decode_of_unread {f : Fault} (h : r.isReady s.stream = true)
    (hframes : s.stream.frames r.frontEnd s.stream.processed r.model.segment = .error f) :
    r.watched.decode s = recorded s.network.2 (r.decode s.unwatched) := by
  have hwatched : r.watched.isReady s.stream = true := h
  have hplain : r.isReady s.unwatched.stream = true := h
  have hframes' : s.stream.frames r.watched.frontEnd s.stream.processed r.watched.model.segment =
    .error f := hframes
  have hframes'' : s.unwatched.stream.frames r.frontEnd s.unwatched.stream.processed
    r.model.segment = .error f := hframes
  simp only [Recognizer.decode, hwatched, hplain, Bool.not_true, Bool.false_eq_true, if_false,
    hframes', hframes'']
  rfl

/-- A window that can be read is what the encoder is given, with the states of the stream. If the
decoding goes through, it leaves the states that the encoder answered with. -/
theorem watched_decode_of_ready {features : Tensor S} (h : r.isReady s.stream = true)
    (hframes : s.stream.frames r.frontEnd s.stream.processed r.model.segment = .ok features) :
    ∃ next, r.watched.decode s =
        recorded (s.network.2 ++ [⟨features, s.stream.encoderStates, next⟩])
          (r.decode s.unwatched) ∧
      ∀ s', r.decode s.unwatched = .ok () s' → next = some s'.stream.encoderStates := by
  have hwatched : r.watched.isReady s.stream = true := h
  have hplain : r.isReady s.unwatched.stream = true := h
  have hframes' : s.stream.frames r.watched.frontEnd s.stream.processed r.watched.model.segment =
    .ok features := hframes
  have hframes'' : s.unwatched.stream.frames r.frontEnd s.unwatched.stream.processed
    r.model.segment = .ok features := hframes
  simp only [Recognizer.decode, hwatched, hplain, Bool.not_true, Bool.false_eq_true, if_false,
    hframes', hframes'']
  dsimp only [Recognizer.watched, Model.watched, Session.unwatched]
  cases r.model.encode features s.stream.encoderStates s.network.1 with
  | error f network => exact ⟨none, rfl, fun s' h => by cases h⟩
  | ok answer network =>
      obtain ⟨out, states⟩ := answer
      refine ⟨some states, ?_⟩
      dsimp only
      rw [Search.Method.carrying_decode, Search.Run.carrying]
      dsimp only
      cases r.method.decode r.model.toNetwork r.graph out ⟨network, s.stream.search⟩ with
      | error f found => exact ⟨rfl, fun s' h => by cases h⟩
      | ok _ found =>
          -- Only here, with the search through, do the states of the answer stay.
          refine ⟨rfl, fun s' h => ?_⟩
          cases h
          rfl

theorem watched_decode (s : Session (σ × List (Reading S)) S) :
    ∃ record, r.watched.decode s = recorded record (r.decode s.unwatched) := by
  cases hready : r.isReady s.stream with
  | false => exact ⟨_, watched_decode_of_not_ready hready⟩
  | true =>
      cases hframes : s.stream.frames r.frontEnd s.stream.processed r.model.segment with
      | error f => exact ⟨_, watched_decode_of_unread hready hframes⟩
      | ok features =>
          obtain ⟨next, hdecode, -⟩ := watched_decode_of_ready hready hframes
          exact ⟨_, hdecode⟩

end

section

variable [BEq S] [LT S] [DecidableLT S] [LE S] [DecidableLE S] [Countable S] [HMul Int S S]

theorem watched_transcript (r : Recognizer σ S) (st : Stream S) :
    r.watched.transcript st = r.transcript st := by
  have hcurrent (st : Stream S) : r.watched.currentTranscript st = r.currentTranscript st := by
    rw [Recognizer.currentTranscript, Recognizer.currentTranscript]
    dsimp only [Recognizer.watched, Model.watched]
    rw [Search.Method.carrying_strip]
  simp only [Recognizer.transcript, hcurrent]
  rfl

end

variable [Zero S] [Add S] [Sub S] [BEq S] [LT S] [DecidableLT S] [LE S] [DecidableLE S]
variable [Countable S] [HMul Int S S] [LogScale S]

/-- A recognizer does the same when its encoder is watched. -/
theorem unwatched_perform (c : Call S) :
    (c.perform r.watched s).unwatched = c.perform r s.unwatched := by
  cases c with
  | accept rate samples => rfl
  | finish => rfl
  | decode =>
      obtain ⟨record, hdecode⟩ := watched_decode (r := r) s
      rw [Call.perform, Call.perform, hdecode, leftBehind_recorded]
      rfl
  | isEndpoint => rfl
  | transcript =>
      rw [Call.perform, Call.perform, watched_transcript]
      rfl
  | restart =>
      rw [Call.perform, Call.perform, watched_restart]
      rfl

theorem unwatched_perform_all (calls : List (Call S)) :
    (calls.foldl (Call.perform r.watched) s).unwatched =
      calls.foldl (Call.perform r) s.unwatched := by
  induction calls generalizing s with
  | nil => rfl
  | cons c calls ih => rw [List.foldl_cons, List.foldl_cons, ih, unwatched_perform]

end SpeechTransducer
