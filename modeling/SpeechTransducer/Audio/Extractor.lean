import SpeechTransducer.Audio.FrontEnd
import SpeechTransducer.Tensor
import SpeechTransducer.Warning

/-!
Features of a stream, as the audio comes in. Only complete windows give frames, so every frame
depends on its own samples alone. All frames are kept, and can be read from any position.
-/

namespace SpeechTransducer.Audio

/-- The state of feature extraction. -/
structure Extractor (S : Type) where
  /-- The samples from the start of the next window on. -/
  pending : List S := []
  frames : List (List S) := []
  finished : Bool := false
  /-- The rate of the audio fed so far. -/
  rate : Option Int := none
  resampler : Option (Resampler S) := none

namespace Extractor

variable {S : Type}

/-- The number of frames. -/
def ready (x : Extractor S) : Nat := x.frames.length

/-- So many windows of a signal, each starting `shift` samples after the one before. -/
def windows (window shift : Nat) : Nat → List S → List (List S)
  | 0, _ => []
  | count + 1, signal => signal.take window :: windows window shift count (signal.drop shift)

/-- Takes samples at the front end's rate, and makes the frames whose windows are complete. -/
def compute (fe : FrontEnd S) (samples : List S) : EStateM Fault (Extractor S) Unit := fun x =>
  let x := { x with pending := x.pending ++ samples }
  let length : Int := x.pending.length
  if length < fe.window then .ok () x
  else if fe.shift = 0 then .error .zeroShift x
  else
    match fe.check with
    | .error f => .error f x
    | .ok () =>
      let count := (1 + (length - fe.window) / fe.shift).toNat
      let made := (windows fe.window.toNat fe.shift.toNat count x.pending).map fe.frame
      .ok ()
        { x with
          frames := x.frames ++ made
          pending := x.pending.drop (count * fe.shift.toNat) }

/-- Takes samples at another rate through the resampler. -/
def computeThrough (fe : FrontEnd S) (r : Resampler S) (samples : List S) :
    EStateM Fault (Extractor S) Unit := fun x =>
  match r.tryFeed samples with
  | .ok converted r => compute fe converted { x with resampler := some r }
  | .error f r => .error f { x with resampler := some r }

/-- What taking audio at a rate reports: the first audio at another rate than the front end's. -/
def acceptChecked (fe : FrontEnd S) (rate : Int) (samples : List S) (x : Extractor S) :
    List Warning × EStateM.Result Fault (Extractor S) Unit :=
  let x := { x with rate := some rate }
  if rate = fe.rate then ([], compute fe samples x)
  else
    match x.resampler with
    | some r => ([], computeThrough fe r samples x)
    | none =>
      ([.resampling rate fe.rate],
        match fe.converter rate with
        | .error f => .error f x
        | .ok converter => computeThrough fe { converter } samples x)

/-- Takes audio: one-dimensional samples, always at the same rate. -/
def accept (fe : FrontEnd S) (rate : Int) (samples : Argument S) (x : Extractor S) :
    List Warning × EStateM.Result Fault (Extractor S) Unit :=
  if x.finished then ([], .error .inputClosed x)
  else
    match samples.tensor .samples with
    | .error f => ([], .error f x)
    | .ok t =>
      if t.shape.length ≠ 1 then ([], .error (.samplesShape t.shape) x)
      else
        match x.rate with
        | some was =>
          if rate = was then acceptChecked fe rate t.data.toList x
          else ([], .error (.rateChanged was rate) x)
        | none => acceptChecked fe rate t.data.toList x

/-- Closes the input. What the resampler held back still gives frames; an incomplete window gives
none. -/
def finish (fe : FrontEnd S) : EStateM Fault (Extractor S) Unit := fun x =>
  if x.finished then .ok () x
  else
    let flushed : EStateM.Result Fault (Extractor S) Unit :=
      match x.resampler with
      | none => .ok () x
      | some r =>
        match r.tryFlush with
        | .ok converted r => compute fe converted { x with resampler := some r }
        | .error f r => .error f { x with resampler := some r }
    match flushed with
    | .error f x => .error f x
    | .ok () x => .ok () { x with finished := true, pending := [] }

/-- The frames from a position on, `n` of them, as one array. -/
def get [Zero S] (fe : FrontEnd S) (x : Extractor S) (index n : Int) : Except Fault (Tensor S) :=
  if n = 0 then Tensor.zeros .float32 [0, fe.bins]
  else if index < 0 ∨ x.ready < index + n then
    .error (.framesNotReady index (index + n) x.ready)
  else
    match slice index (index + n) x.frames with
    | [] => .error .emptyStack
    | rows => .ok (.ofRows .float32 rows)

end Extractor

end SpeechTransducer.Audio
