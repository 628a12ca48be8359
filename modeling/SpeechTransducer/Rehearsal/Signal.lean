import SpeechTransducer.Score

/-!
Signals by description. They stand in for recordings where a recognizer is rehearsed: values written
down, one value held for a while, and noise that is the same whenever it starts from the same seed.
-/

namespace SpeechTransducer.Rehearsal

/-- A part of a signal. -/
inductive Part where
  | values (xs : List Float)
  | constant (count : Nat) (x : Float)
  | noise (count seed : Nat) (amplitude : Float)

/-- The seed after another one. -/
def nextSeed (seed : Nat) : Nat := (1664525 * seed + 1013904223) % (1 <<< 32)

/-- The sample of a seed: its upper 24 bits, spread over both signs. -/
def noiseSample (amplitude : Float) (seed : Nat) : Float :=
  (Float.ofNat (seed / 256) / 8388608 - 1) * amplitude

/-- Noise from the seed after a given one on, the samples before it in reverse order in front. -/
def noiseAfter (amplitude : Float) : Nat → Nat → List Float → List Float
  | 0, _, before => before.reverse
  | count + 1, seed, before =>
    let seed := nextSeed seed
    noiseAfter amplitude count seed (noiseSample amplitude seed :: before)

/-- The samples of a part. -/
def Part.samples : Part → List Float
  | values xs => xs
  | constant count x => List.replicate count x
  | noise count seed amplitude => noiseAfter amplitude count seed []

/-- The samples of a signal, in single precision. -/
def samples (parts : List Part) : List Float := (parts.flatMap Part.samples).map LogScale.single

end SpeechTransducer.Rehearsal
