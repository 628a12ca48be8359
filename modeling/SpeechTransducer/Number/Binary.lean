/-!
Double-precision numbers as fractions: a number is taken apart into its sign, significand and
exponent, and a fraction is rounded to the nearest number. Everything between is exact arithmetic
on natural numbers.
-/

namespace SpeechTransducer.Number

/-- The quotient of two natural numbers, rounded to the nearest; a half goes to the even
neighbour. -/
def roundDiv (num den : Nat) : Nat :=
  let q := num / den
  let r := num % den
  if 2 * r < den then q
  else if 2 * r = den then q + q % 2
  else q + 1

/-- A double-precision number taken apart. A finite one is its significand times two to the
exponent. -/
inductive Parts where
  | undefined
  | infinite (negative : Bool)
  | finite (negative : Bool) (significand : Nat) (exponent : Int)
  deriving DecidableEq, Repr

/-- Takes a number apart. -/
def parts (x : Float) : Parts :=
  let bits := x.toBits.toNat
  let negative := bits >>> 63 == 1
  let exponent : Nat := (bits >>> 52) % (1 <<< 11)
  let fraction : Nat := bits % (1 <<< 52)
  if exponent == 2047 then
    if fraction == 0 then .infinite negative else .undefined
  else if exponent == 0 then .finite negative fraction (-1074)
  else .finite negative (fraction + (1 <<< 52)) ((exponent : Int) - 1075)

/-- The bits of the number `significand * 2 ^ exponent`, for a significand of at most `2 ^ 53` that
has its full width unless the exponent is the least. What is too large becomes infinite. -/
def packBits (negative : Bool) (significand : Nat) (exponent : Int) : Nat :=
  let sign := if negative then 1 <<< 63 else 0
  let full := significand == 1 <<< 53
  let (m, q) := if full then (1 <<< 52, exponent + 1) else (significand, exponent)
  if m < 1 <<< 52 then sign + m
  else if q + 1075 ≥ 2047 then sign + (2047 <<< 52)
  else sign + ((q + 1075).toNat <<< 52) + (m - (1 <<< 52))

/-- The fraction scaled by two to the power `-q`, rounded to the nearest integer. -/
def scaledRound (num den : Nat) (q : Int) : Nat :=
  if 0 ≤ q then roundDiv num (den <<< q.toNat) else roundDiv (num <<< (-q).toNat) den

/-- The number nearest to a fraction, of two equally near ones that with the even significand. -/
def ofFraction (negative : Bool) (num den : Nat) : Float :=
  if num == 0 then Float.ofBits (packBits negative 0 0).toUInt64
  else
    let k : Int := num.log2 - den.log2
    -- the fraction lies between `2 ^ (k - 1)` and `2 ^ (k + 1)`
    let full := if 0 ≤ k then den <<< k.toNat ≤ num else den ≤ num <<< (-k).toNat
    let q : Int := max (-1074) (if full then k - 52 else k - 53)
    Float.ofBits (packBits negative (scaledRound num den q) q).toUInt64

/-- The number nearest to an integer. -/
def ofInteger (n : Int) : Float := ofFraction (n < 0) n.natAbs 1

/-- A multiple of a duration, as frame counts are turned into seconds. -/
instance scaled : HMul Int Float Float := ⟨fun n x => ofInteger n * x⟩

/-- The integer part of a number, or nothing if it has none. -/
def truncate? (x : Float) : Option Int :=
  match parts x with
  | .finite negative m e =>
    let n : Nat := if 0 ≤ e then m <<< e.toNat else m >>> (-e).toNat
    some (if negative then -n else n)
  | _ => none

end SpeechTransducer.Number
