/-!
Power spectra by the radix-two transform: the transform of a list is put together from those of
its entries at even and at odd positions.
-/

namespace SpeechTransducer.Audio

/-- A complex number. -/
structure Complex where
  re : Float
  im : Float

namespace Complex

def add (x y : Complex) : Complex := ⟨x.re + y.re, x.im + y.im⟩

def sub (x y : Complex) : Complex := ⟨x.re - y.re, x.im - y.im⟩

def mul (x y : Complex) : Complex := ⟨x.re * y.re - x.im * y.im, x.re * y.im + x.im * y.re⟩

/-- The squared distance from zero. -/
def power (x : Complex) : Float := x.re * x.re + x.im * x.im

/-- The unit number at a negative angle, given as a part of the full turn. -/
def turn (part : Float) : Complex :=
  let angle := -2 * 3.141592653589793 * part
  ⟨Float.cos angle, Float.sin angle⟩

end Complex

/-- The entries at even positions. -/
def evens {α : Type} : List α → List α
  | [] => []
  | [x] => [x]
  | x :: _ :: xs => x :: evens xs

/-- The entries at odd positions. -/
def odds {α : Type} : List α → List α
  | [] => []
  | [_] => []
  | _ :: y :: xs => y :: odds xs

/-- The transform of a list of `2 ^ depth` numbers, given the turns by multiples of that part of
the circle up to a half. -/
def transform : Nat → List Complex → List Complex → List Complex
  | 0, _, xs => xs
  | depth + 1, turns, xs =>
    let e := transform depth (evens turns) (evens xs)
    let o := List.zipWith Complex.mul turns (transform depth (evens turns) (odds xs))
    List.zipWith Complex.add e o ++ List.zipWith Complex.sub e o

/-- The turns that a transform of a given depth needs. -/
def turnsFor (depth : Nat) : List Complex :=
  (List.range (1 <<< (depth - 1))).map fun k =>
    Complex.turn (Float.ofNat k / Float.ofNat (1 <<< depth))

/-- The powers of the lower half of the spectrum of a signal, which is filled up with zeros to
`2 ^ depth` samples. -/
def powerSpectrum (depth : Nat) (turns : List Complex) (signal : List Float) : List Float :=
  let n := 1 <<< depth
  let padded := signal ++ List.replicate (n - signal.length) 0
  ((transform depth turns (padded.map (⟨·, 0⟩))).take (n / 2)).map Complex.power

end SpeechTransducer.Audio
