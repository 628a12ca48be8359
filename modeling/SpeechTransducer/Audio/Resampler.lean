import SpeechTransducer.Slice
import SpeechTransducer.Tensor

/-!
Resampling of audio that arrives in pieces.

A converter turns a whole signal from one rate into another. It works in blocks, and for every
block it looks at a fixed number of samples on both sides. The resampler runs it on stretches of
the signal that are long enough: the last samples are held back until enough audio follows them, so
that nothing it gives out depends on audio still to come.
-/

namespace SpeechTransducer.Audio

/-- The conversion of whole signals between two rates. -/
structure Converter (S : Type) where
  /-- The number of samples in a block that is read. -/
  inBlock : Nat
  /-- The number of samples that a block gives. -/
  outBlock : Nat
  /-- The number of samples looked at on each side of a block. -/
  halfWidth : Nat
  convert : List S → List S
  /-- Why nothing can be converted, for rates between which there is no conversion. -/
  refusal : Option Fault := none

/-- The samples needed on each side, as whole blocks. -/
def Converter.context {S : Type} (c : Converter S) : Nat :=
  c.inBlock * ((c.halfWidth + c.inBlock - 1) / c.inBlock)

/-- A resampler with the samples that it still needs. Positions count the samples fed so far. -/
structure Resampler (S : Type) where
  converter : Converter S
  buffer : List S := []
  /-- The position of the first sample in the buffer. -/
  bufferStart : Int := 0
  /-- The position of the first sample that is not converted yet. -/
  position : Int := 0

namespace Resampler

variable {S : Type}

/-- The position after the last sample fed. -/
def fed (r : Resampler S) : Int := r.bufferStart + r.buffer.length

/-- Converts the samples up to `stop`, looking at those up to `segmentEnd`, and drops what is no
longer needed. -/
def run (r : Resampler S) (segmentEnd stop : Int) : List S × Resampler S :=
  let c := r.converter
  let blocks (n : Int) : Int := n / c.inBlock * c.outBlock
  let start := max r.bufferStart (r.position - c.context)
  let segment := slice (start - r.bufferStart) (segmentEnd - r.bufferStart) r.buffer
  let converted := c.convert segment
  let first := blocks (r.position - start)
  let last := converted.length - blocks (segmentEnd - stop)
  let keep := max r.bufferStart (stop - c.context)
  (slice first last converted,
    { r with
      position := stop
      buffer := sliceFrom (keep - r.bufferStart) r.buffer
      bufferStart := keep })

/-- The position up to which samples can be converted: a whole number of blocks, with enough samples
behind it. -/
def reach (r : Resampler S) : Int :=
  let block : Int := r.converter.inBlock
  (r.fed - r.converter.context) / block * block

/-- The resampler with more samples in its buffer. -/
def push (r : Resampler S) (samples : List S) : Resampler S :=
  { r with buffer := r.buffer ++ samples }

/-- Converts the samples that are followed by enough others. -/
def advance (r : Resampler S) : List S × Resampler S :=
  if r.reach ≤ r.position then ([], r) else r.run (r.reach + r.converter.context) r.reach

/-- Feeds samples. Gives the converted audio that no longer depends on what follows. -/
def feed (r : Resampler S) (samples : List S) : List S × Resampler S := (r.push samples).advance

/-- Converts the samples held back, as if the signal ended here. -/
def flush (r : Resampler S) : List S × Resampler S :=
  if r.fed ≤ r.position then ([], r) else r.run r.fed r.fed

/-- A step that converts the samples up to a position, if the converter does not refuse. -/
def unlessRefused (reach : Int) (step : Resampler S → List S × Resampler S) :
    EStateM Fault (Resampler S) (List S) := fun r =>
  match r.converter.refusal with
  | some f => if reach ≤ r.position then .ok [] r else .error f r
  | none =>
    let (converted, r) := step r
    .ok converted r

/-- Feeds samples, unless the converter refuses to convert them. They are kept even then. -/
def tryFeed (samples : List S) : EStateM Fault (Resampler S) (List S) := fun r =>
  let r := r.push samples
  unlessRefused r.reach advance r

/-- Feeds samples as an array, which has to have one dimension. -/
def tryFeedArray : Argument S → EStateM Fault (Resampler S) (List S)
  | .list => throw .listOfSamples
  | .array t =>
    if t.shape.length = 1 then tryFeed t.data.toList else throw (.sampleDimensions t.shape.length)

/-- Converts the samples held back, unless the converter refuses. -/
def tryFlush : EStateM Fault (Resampler S) (List S) := fun r => unlessRefused r.fed flush r

end Resampler

end SpeechTransducer.Audio
