import SpeechTransducer.Audio.Resampler
import SpeechTransducer.Number.Binary
import SpeechTransducer.Score

/-!
Band-limited conversion between sampling rates: every sample of the result is a sum over samples of
the signal, weighted by a sinc function under a squared cosine. The weights reach six zero
crossings to each side, with the band cut at 99 percent of the lower rate.
-/

namespace SpeechTransducer.Audio.Sinc

/-- The number of zero crossings on each side. -/
def crossings : Float := 6

/-- The cut-off, as a part of the lower rate. -/
def rolloff : Float := 0.99

/-- Half the circumference of the unit circle. -/
def pi : Float := 3.141592653589793

/-- The weight at a distance measured in zero crossings. -/
def weight (t : Float) : Float :=
  if t.abs ≥ crossings then 0
  else
    let c := Float.cos (t * pi / crossings / 2)
    let sinc := if t == 0 then 1 else Float.sin (t * pi) / (t * pi)
    sinc * (c * c)

/-- The weights for one sample of an output block: the first sample of the signal that has one, seen
from the start of the block, and the weights from there on. -/
structure Kernel where
  first : Int
  weights : List Float

/-- The rates after division by their common divisor, and what follows from them. -/
structure Shape where
  source : Nat
  target : Nat

/-- The cut-off frequency of a conversion. -/
def Shape.base (s : Shape) : Float := Float.ofNat (min s.source s.target) * rolloff

/-- The number of samples that a block looks at on each side. -/
def Shape.halfWidth (s : Shape) : Nat :=
  (crossings * Float.ofNat s.source / s.base).ceil.toUInt64.toNat

/-- The weights for sample `j` of an output block. -/
def Shape.kernel (s : Shape) (j : Nat) : Kernel :=
  let w : Int := s.halfWidth
  let centre : Int := j * s.source / s.target
  let first := max (-w) (centre - w)
  let last := min (w + s.source - 1) (centre + w + 1)
  let scale := s.base / Float.ofNat s.source
  let offset := -(Float.ofNat j) / Float.ofNat s.target
  { first
    weights := (List.range (last + 1 - first).toNat).map fun (k : Nat) =>
      let i := first + k
      weight ((offset + Float.ofInt i / Float.ofNat s.source) * s.base) * scale }

/-- The sample at a position of a signal, which is zero outside. -/
def sampleAt (signal : Array Float) (i : Int) : Float := if 0 ≤ i then signal.getD i.toNat 0 else 0

/-- The weighted sum of a signal from a position on. -/
def Kernel.sum (k : Kernel) (signal : Array Float) (start : Int) : Float :=
  go k.weights (start + k.first) 0
where
  go : List Float → Int → Float → Float
    | [], _, acc => acc
    | w :: ws, i, acc => go ws (i + 1) (acc + w * sampleAt signal i)

/-- Zero times the samples that a block looks at and a kernel has no weight for: zero, but undefined
if one of them is not finite. -/
def Shape.blur (s : Shape) (k : Kernel) (signal : Array Float) (start : Int) : Float :=
  let seen := (List.range (2 * s.halfWidth + s.source)).map fun (i : Nat) => (i : Int) - s.halfWidth
  let unweighted := seen.filter fun i => i < k.first || k.first + k.weights.length ≤ i
  (unweighted.map fun i => 0 * sampleAt signal (start + i)).foldl (· + ·) 0

/-- The number of samples that a signal becomes. The quotient is rounded to single precision before
it is rounded up, and no block gives more than its share. -/
def Shape.count (s : Shape) (length : Nat) : Nat :=
  let ratio := LogScale.single (Number.ofFraction false (s.target * length) s.source)
  min ratio.ceil.toUInt64.toNat ((length / s.source + 1) * s.target)

/-- The conversion of a whole signal. Every sample of a block is a sum over all samples that the
block looks at, also those of weight zero. -/
def Shape.convert (s : Shape) (kernels : Array (Thunk Kernel)) (signal : List Float) : List Float :=
  let samples := signal.toArray
  let isFinite := samples.all fun x => x - x == 0
  (List.range (s.count samples.size)).map fun p =>
    let start := p / s.target * s.source
    match kernels[p % s.target]? with
    | some k =>
      let k := k.get
      let sum := k.sum samples start
      LogScale.single (if isFinite then sum else sum + s.blur k samples start)
    | none => 0

/-- The conversion from a rate below zero. Short signals can be fed to it; it refuses as soon as it
would have to convert. -/
def backwards (source : Nat) : Converter Float where
  inBlock := 1
  outBlock := 1
  halfWidth := source * (7 / source)
  convert := id
  refusal := some .noConversion

/-- The samples of a block that a conversion from a rate below zero can still be set up for. -/
def longestBackwards : Nat := 14

/-- The number of weights that there is no memory for. -/
def mostWeights : Nat := 1 <<< 34

/-- The converter between two rates that are not negative, after division by their common
divisor. -/
def Shape.converter (s : Shape) : Except Fault (Converter Float) :=
  if s.source = 0 ∨ s.target = 0 then .error .zeroRate
  else if (Number.ofInteger (6 * s.source)).isInf then .error .rateTooLarge
  else if mostWeights ≤ s.target * (2 * s.halfWidth + s.source) then .error .noConversion
  else
    let kernels := Thunk.mk fun _ =>
      (Array.range s.target).map fun j => Thunk.mk fun _ => s.kernel j
    .ok
      { inBlock := s.source
        outBlock := s.target
        halfWidth := s.halfWidth
        convert := fun signal => s.convert kernels.get signal }

/-- The converter between two rates. -/
def converter (source target : Int) : Except Fault (Converter Float) :=
  let d := Int.gcd source target
  let s : Shape := ⟨source.natAbs / d, target.natAbs / d⟩
  if source = target then .error (if source = 0 then .zeroRates else .equalRates)
  else if target < 0 then .error .noConversion
  else if source < 0 then
    if longestBackwards < s.source then .error .noConversion else .ok (backwards s.source)
  else s.converter

end SpeechTransducer.Audio.Sinc
