import SpeechTransducer.Proofs.Audio.Extraction

/-!
What can be seen of the features of a stream: the answers to sequences of calls. A call that fails
answers with its fault, and the next call goes on from what it left behind.
-/

namespace SpeechTransducer.Audio.Extractor

variable {S : Type}

/-- The checks that audio has to pass before anything is stored. -/
def vetted (x : Extractor S) (rate : Int) (samples : Argument S) : Except Fault (List S) :=
  if x.finished then .error .inputClosed
  else
    match samples.tensor .samples with
    | .error f => .error f
    | .ok t =>
      if t.shape.length ≠ 1 then .error (.samplesShape t.shape)
      else
        match x.rate with
        | some was => if rate = was then .ok t.data.toList else .error (.rateChanged was rate)
        | none => .ok t.data.toList

/-- Audio that is turned away: for a closed input, not as a one-dimensional array, or at another
rate than before. -/
def TurnedAway (x : Extractor S) (rate : Int) (samples : Argument S) : Prop :=
  x.finished = true ∨ (∀ t, samples = .array t → t.shape.length ≠ 1) ∨
    ∃ was, x.rate = some was ∧ rate ≠ was

section

variable {fe : FrontEnd S} {rate : Int} {samples : Argument S} {x y : Extractor S}

/-- Checks come first, and what does not pass them changes nothing. -/
theorem accept_eq : accept fe rate samples x =
    match vetted x rate samples with
    | .ok s => acceptChecked fe rate s x
    | .error f => ([], .error f x) := by
  rw [accept, vetted]
  split
  · rfl
  · cases samples.tensor .samples with
    | error f => rfl
    | ok t =>
        dsimp only
        split
        · rfl
        · cases x.rate with
          | none => rfl
          | some was =>
              dsimp only
              split
              · rfl
              · rfl

/-- The checks see of a state only whether the input is closed and the rate. -/
theorem vetted_congr (hfinished : x.finished = y.finished) (hrate : x.rate = y.rate) :
    vetted x rate samples = vetted y rate samples := by
  rw [vetted, vetted, hfinished, hrate]

theorem vetted_unset (hopen : x.finished = false) (hrate : x.rate = none) (more : List S) :
    vetted x rate (asArray more) = .ok more := by
  simp [vetted, asArray, Argument.tensor, hopen, hrate]

theorem vetted_again (hopen : x.finished = false) (hrate : x.rate = some rate) (more : List S) :
    vetted x rate (asArray more) = .ok more := by
  simp [vetted, asArray, Argument.tensor, hopen, hrate]

theorem vetted_changed {was : Int} (hopen : x.finished = false) (hrate : x.rate = some was)
    (hne : rate ≠ was) (more : List S) :
    vetted x rate (asArray more) = .error (.rateChanged was rate) := by
  simp [vetted, asArray, Argument.tensor, hopen, hrate, hne]

/-- Audio is turned away, or all its samples pass. -/
theorem vetted_cases (x : Extractor S) (rate : Int) (samples : Argument S) :
    (TurnedAway x rate samples ∧ ∃ f, vetted x rate samples = .error f) ∨
    (¬TurnedAway x rate samples ∧ x.finished = false ∧ (x.rate = none ∨ x.rate = some rate) ∧
      ∃ s, vetted x rate samples = .ok s) := by
  cases hfinished : x.finished with
  | true => simp [TurnedAway, vetted, hfinished]
  | false =>
      cases samples with
      | list => simp [TurnedAway, vetted, Argument.tensor, hfinished]
      | array t =>
          by_cases hshape : t.shape.length = 1
          · cases hrate : x.rate with
            | none => simp [TurnedAway, vetted, Argument.tensor, hfinished, hshape, hrate]
            | some was =>
                by_cases hsame : rate = was
                · simp [TurnedAway, vetted, Argument.tensor, hfinished, hshape, hrate, hsame]
                · simp [TurnedAway, vetted, Argument.tensor, hfinished, hshape, hrate, hsame]
          · simp [TurnedAway, vetted, Argument.tensor, hfinished, hshape]

end

/-- The calls on the features of a stream. -/
inductive Use (S : Type) where
  | accept (rate : Int) (samples : Argument S)
  | finish
  | ready
  | get (index n : Int)

/-- What a call answers that goes through. -/
inductive Answer (S : Type) where
  | done
  | count (frames : Nat)
  | frames (rows : Tensor S)

/-- The answer of a step that gives nothing back, and the state that it leaves behind. -/
def answered : EStateM.Result Fault (Extractor S) Unit → Except Fault (Answer S) × Extractor S
  | .ok _ x => (.ok .done, x)
  | .error f x => (.error f, x)

theorem error_of_answered {result : EStateM.Result Fault (Extractor S) Unit} {f : Fault}
    (h : (answered result).1 = .error f) : ∃ x, result = .error f x := by
  cases result with
  | ok _ x => cases h
  | error g x =>
      cases h
      exact ⟨x, rfl⟩

variable [Zero S]

/-- The answer to a call, and the state that it leaves behind. -/
def Use.perform (fe : FrontEnd S) (x : Extractor S) :
    Use S → Except Fault (Answer S) × Extractor S
  | .accept rate samples => answered (Extractor.accept fe rate samples x).2
  | .finish => answered (Extractor.finish fe x)
  | .ready => (.ok (.count x.ready), x)
  | .get index n => ((x.get fe index n).map .frames, x)

/-- The answers to a sequence of calls. -/
def answers (fe : FrontEnd S) : Extractor S → List (Use S) → List (Except Fault (Answer S))
  | _, [] => []
  | x, u :: uses => (u.perform fe x).1 :: answers fe (u.perform fe x).2 uses

/-- States that no sequence of calls tells apart. -/
def SameAnswers (fe : FrontEnd S) (x y : Extractor S) : Prop :=
  ∀ uses, answers fe x uses = answers fe y uses

/-- The states that calls lead to. -/
inductive Reached (fe : FrontEnd S) : Extractor S → Prop where
  | start : Reached fe {}
  | step (u : Use S) {x : Extractor S} : Reached fe x → Reached fe (u.perform fe x).2

variable {fe : FrontEnd S} {x y : Extractor S}

theorem SameAnswers.answer (h : SameAnswers fe x y) (u : Use S) :
    (u.perform fe x).1 = (u.perform fe y).1 :=
  (List.cons.inj (h [u])).1

theorem SameAnswers.after (h : SameAnswers fe x y) (u : Use S) :
    SameAnswers fe (u.perform fe x).2 (u.perform fe y).2 :=
  fun uses => (List.cons.inj (h (u :: uses))).2

theorem perform_changed {rate was : Int} (hopen : x.finished = false) (hrate : x.rate = some was)
    (hne : rate ≠ was) (more : List S) :
    (Use.accept rate (asArray more)).perform fe x = (.error (.rateChanged was rate), x) := by
  rw [Use.perform, accept_eq, vetted_changed hopen hrate hne]
  rfl

theorem perform_again {rate : Int} (hopen : x.finished = false) (hrate : x.rate = some rate)
    (more : List S) : (Use.accept rate (asArray more)).perform fe x =
      answered (acceptChecked fe rate more x).2 := by
  rw [Use.perform, accept_eq, vetted_again hopen hrate]

theorem get_congr (h : x.frames = y.frames) (index n : Int) :
    x.get fe index n = y.get fe index n := by
  unfold get ready
  rw [h]

/-- States give the same answers if they do so at the next call, whichever it is, and it leads to
states of which the same is known. -/
theorem sameAnswers_of_step {R : Extractor S → Extractor S → Prop}
    (hstep : ∀ x y, R x y → ∀ u : Use S, (u.perform fe x).1 = (u.perform fe y).1 ∧
      R (u.perform fe x).2 (u.perform fe y).2)
    (h : R x y) : SameAnswers fe x y := by
  intro uses
  induction uses generalizing x y with
  | nil => rfl
  | cons u uses ih =>
      obtain ⟨hanswer, hafter⟩ := hstep x y h u
      rw [answers, answers, hanswer, ih hafter]

end SpeechTransducer.Audio.Extractor
