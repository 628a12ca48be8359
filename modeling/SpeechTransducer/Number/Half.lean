import SpeechTransducer.Number.Binary

/-!
Half precision: eleven binary digits, of which the last is worth at least `2 ^ -24`.
-/

namespace SpeechTransducer.Number

/-- The number of half precision nearest to a number, of two equally near ones that with the even
significand. What is too large becomes infinite. -/
def half (x : Float) : Float :=
  match parts x with
  | .finite negative m e =>
    let q : Int := max (-24) (m.log2 + e - 10)
    let n := if q ≤ e then m <<< (e - q).toNat else roundDiv m (1 <<< (q - e).toNat)
    let whole := if 0 ≤ q then n <<< q.toNat else n >>> (-q).toNat
    if 1 <<< 16 ≤ whole then (if negative then -1 / 0 else 1 / 0)
    else if 0 ≤ q then ofFraction negative whole 1
    else ofFraction negative n (1 <<< (-q).toNat)
  | _ => x

end SpeechTransducer.Number
