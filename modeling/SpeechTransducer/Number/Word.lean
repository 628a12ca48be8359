import SpeechTransducer.Number.Binary

/-!
Machine words: the integers that 64 bits hold, signed.
-/

namespace SpeechTransducer.Number

/-- Whether an integer fits into a word. -/
def fitsWord (n : Int) : Bool :=
  decide (-0x8000000000000000 ≤ n) && decide (n < 0x8000000000000000)

/-- The word that an integer wraps around to. -/
def wrapWord (n : Int) : Int := n.bmod (1 <<< 64)

/-- The integer part of a number, if it fits into so many bits. All others become the least integer
that does. -/
def toWord (bits : Nat) (x : Float) : Int :=
  let least : Int := -(1 <<< (bits - 1) : Nat)
  match truncate? x with
  | some n => if least ≤ n ∧ n < -least then n else least
  | none => least

end SpeechTransducer.Number
