import SpeechTransducer.Audio.Sinc
import SpeechTransducer.Audio.Spectrum

/-!
The front end of a recognizer: how signals become feature frames. What the extractor of a stream
needs of it is the position and length of the windows, one frame for each window, and converters
from other sampling rates.

The frames themselves are logarithms of the energies in bands of equal width on the mel scale.
-/

namespace SpeechTransducer.Audio

/-- A way to make feature frames. -/
structure FrontEnd (S : Type) where
  /-- The sampling rate of the signals. -/
  rate : Int
  /-- The number of features in a frame. -/
  bins : Int
  /-- The number of samples in a window. -/
  window : Int
  /-- The number of samples from one window to the next. -/
  shift : Int
  /-- Whether windows can be laid out, so that audio can be taken. -/
  layout : Except Fault Unit := .ok ()
  /-- Whether the settings describe frames at all. -/
  check : Except Fault Unit
  /-- The frame of a window. -/
  frame : List S → List S
  /-- The converter from another rate. -/
  converter : Int → Except Fault (Converter S)
  /-- The value of a 16-bit sample. -/
  sample : Int → S

/-- Settings of the mel filterbank. -/
structure FeatureConfig where
  rate : Int := 16000
  bins : Int := 80
  deriving DecidableEq, Repr

namespace FeatureConfig

/-- The whole number of samples in a time in milliseconds, counted in floating-point numbers. -/
def samplesIn (c : FeatureConfig) (milliseconds : Float) : Int :=
  (Number.truncate? (Number.ofInteger c.rate * milliseconds / 1000)).getD 0

/-- A window is 25 ms long. -/
def window (c : FeatureConfig) : Int := c.samplesIn 25

/-- Windows are 10 ms apart. -/
def shift (c : FeatureConfig) : Int := c.samplesIn 10

/-- Whether the length of a window can be computed: the count of its samples is finite. -/
def layout (c : FeatureConfig) : Except Fault Unit :=
  let rate := Number.ofInteger c.rate
  if rate.isInf then .error .timeTooLarge
  else if (rate * 25).isInf then .error .secondsInfinite
  else .ok ()

/-- Bands lie above 20 Hz. -/
def lowest : Float := 20

/-- Bands end 400 Hz below half the sampling rate. -/
def highest (c : FeatureConfig) : Float := 0.5 * Float.ofInt c.rate - 400

/-- The number of bands that there is no memory for. -/
def mostBands : Nat := 1 <<< 26

/-- Settings with at least four bands between the limits and two samples in a window. -/
def check (c : FeatureConfig) : Except Fault Unit :=
  if 2 ≤ c.window ∧ 3 < c.bins ∧ 840 < c.rate then
    if c.bins < mostBands then .ok () else .error .tooManyBands
  else .error .filterbankSettings

end FeatureConfig

/-- Samples come between -1 and 1; frames are made of samples in the range of 16-bit integers. -/
def sampleScale : Float := 32768

/-- The factor of the pre-emphasis. -/
def preemphasis : Float := 0.97

/-- The least energy of a band. -/
def leastEnergy : Float := 1.1920928955078125e-07

/-- The mel scale. -/
def mel (frequency : Float) : Float := 1127 * Float.log (1 + frequency / 700)

/-- The triangular weights of a band: the first spectral line with a weight, and the weights. -/
structure Band where
  first : Nat
  weights : List Float

/-- What the frames of some settings have in common. -/
structure Bank where
  /-- The logarithm of the transform's length. -/
  depth : Nat
  turns : List Complex
  taper : List Float
  bands : List Band

/-- The shape of a window: a raised cosine to the power 0.85. -/
def taper (n : Nat) : List Float :=
  (List.range n).map fun i =>
    let a := 2 * 3.141592653589793 * Float.ofNat i / Float.ofNat (n - 1)
    Float.pow (0.5 - 0.5 * Float.cos a) 0.85

/-- The band around the centre with a number. -/
def FeatureConfig.band (c : FeatureConfig) (length k : Nat) : Band :=
  let low := mel lowest
  let step := (mel c.highest - low) / (Float.ofInt c.bins + 1)
  let left := low + Float.ofNat k * step
  let centre := low + (Float.ofNat k + 1) * step
  let right := low + (Float.ofNat k + 2) * step
  let weight (i : Nat) : Float :=
    let m := mel (Float.ofInt c.rate / Float.ofNat length * Float.ofNat i)
    let w := min ((m - left) / (centre - left)) ((right - m) / (right - centre))
    if w < 0 then 0 else w
  let all := (List.range (length / 2)).map weight
  let first := (all.takeWhile (· == 0)).length
  { first, weights := (all.drop first).takeWhile (· != 0) }

/-- The bank of some settings. -/
def FeatureConfig.bank (c : FeatureConfig) : Bank :=
  let n := c.window.toNat
  let depth := (n - 1).log2 + 1
  { depth
    turns := turnsFor depth
    taper := taper n
    bands := (List.range c.bins.toNat).map (c.band (1 <<< depth)) }

/-- The sum of products of weights with the entries from a position on. -/
def Band.sum (b : Band) (spectrum : Array Float) : Float :=
  (b.weights.zipIdx.map fun (w, i) => w * spectrum.getD (b.first + i) 0).foldl (· + ·) 0

/-- Every sample less a part of the one before it; the first counts as its own predecessor. -/
def emphasize : Float → List Float → List Float
  | _, [] => []
  | before, x :: xs => (x - preemphasis * before) :: emphasize x xs

/-- Zero times all powers of a spectrum: zero, but undefined if one of them is not finite. -/
def blur (spectrum : Array Float) : Float := spectrum.foldl (fun acc x => acc + 0 * x) 0

/-- The frame of a window of samples. The energy of a band is a sum over the whole spectrum, also
over the lines of weight zero. -/
def Bank.frame (b : Bank) (window : List Float) : List Float :=
  let scaled := window.map (· * sampleScale)
  let mean := scaled.foldl (· + ·) 0 / Float.ofNat scaled.length
  let centred := scaled.map (· - mean)
  let shaped := List.zipWith (· * ·) (emphasize (centred.headD 0) centred) b.taper
  let spectrum := (powerSpectrum b.depth b.turns shaped).toArray
  let blur := blur spectrum
  b.bands.map fun band =>
    let e := band.sum spectrum + blur
    LogScale.single (Float.log (if e < leastEnergy then leastEnergy else e))

/-- The mel filterbank as a front end. The bank is made when the first frame is. -/
def FeatureConfig.frontEnd (c : FeatureConfig) : FrontEnd Float :=
  let bank := Thunk.mk fun _ => c.bank
  { rate := c.rate
    bins := c.bins
    window := c.window
    shift := c.shift
    layout := c.layout
    check := c.check
    frame := fun window => bank.get.frame window
    converter := fun rate => Sinc.converter rate c.rate
    sample := fun n => Float.ofInt n / sampleScale }

end SpeechTransducer.Audio
