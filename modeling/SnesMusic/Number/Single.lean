/-!
# Numbers of 24 significant bits

A ratio rounded to 24 binary digits, ties to the even neighbour: the values of single precision
floating point, for numbers that are neither negative nor out of its range. Kept exact, so that
comparing and printing them involves no further rounding.
-/
namespace SnesMusic

/-- The number `mantissa * 2 ^ exponent`; of a value other than zero the mantissa has 24 bits. -/
structure Single where
  mantissa : Nat
  exponent : Int
  deriving DecidableEq, Repr

namespace Single

/-- The integer nearest to `num / den`, the even one of two. -/
def roundDiv (num den : Nat) : Nat :=
  let quotient := num / den
  let rest := 2 * (num % den)
  if rest < den then quotient
  else if den < rest then quotient + 1
  else quotient + quotient % 2

def zero : Single := ⟨0, 0⟩

/-- Scales `num / den` by `2 ^ -exponent` and rounds to an integer. -/
def scaled (num den : Nat) (exponent : Int) : Nat :=
  if 0 ≤ exponent then roundDiv num (den <<< exponent.toNat)
  else roundDiv (num <<< (-exponent).toNat) den

/-- The nearest value to `num / den`. The first exponent tried leaves 23 or 24 bits before the
point; a mantissa that rounds up to 25 bits is halved. -/
def ofRatio (num den : Nat) : Single :=
  if num = 0 ∨ den = 0 then zero
  else
    let high : Int := (num.log2 : Int) - (den.log2 : Int) - 23
    let exponent :=
      if num <<< den.log2 < den <<< num.log2 then high - 1 else high
    let mantissa := scaled num den exponent
    if mantissa = 0x1000000 then ⟨0x800000, exponent + 1⟩ else ⟨mantissa, exponent⟩

/-- Numerator and denominator of the exact value. -/
def ratio (s : Single) : Nat × Nat :=
  if 0 ≤ s.exponent then (s.mantissa <<< s.exponent.toNat, 1)
  else (s.mantissa, 1 <<< (-s.exponent).toNat)

def ofNat (n : Nat) : Single := ofRatio n 1

def mul (s t : Single) : Single :=
  ofRatio (s.ratio.1 * t.ratio.1) (s.ratio.2 * t.ratio.2)

/-- The quotient; zero when dividing by zero. -/
def div (s t : Single) : Single :=
  ofRatio (s.ratio.1 * t.ratio.2) (s.ratio.2 * t.ratio.1)

/-- Whether the exact value lies above `n`. -/
def exceeds (s : Single) (n : Nat) : Bool :=
  n * s.ratio.2 < s.ratio.1

/-- The exact value with one decimal, ties to even. -/
def toTenths (s : Single) : String :=
  let tenths := roundDiv (s.ratio.1 * 10) s.ratio.2
  toString (tenths / 10) ++ "." ++ toString (tenths % 10)

/-- The IEEE 754 encoding: exponent biased by 127 above the 23 bits after the leading one. -/
def bits (s : Single) : Nat :=
  if s.mantissa = 0 then 0
  else (s.exponent + 150).toNat * 0x800000 + (s.mantissa - 0x800000)

end Single
end SnesMusic
