/-!
# Finite binary floating-point numbers

A finite number with 53 binary digits is `± significand · 2 ^ exponent`. All arithmetic is exact on natural numbers
followed by one rounding.

* **Rounding** (`Binary64.ofRatio`): the nearest number to a ratio, a tie going to the even significand, and nothing
  when the nearest one is out of range.
* **Operations** (`mul`, `div`, `powTen`): the exact result, rounded once.
-/

namespace QueryOutline

/-- A finite number; zero has significand 0 and the least exponent, every other number the greatest significand below
`2 ^ 53` that its exponent range admits. -/
structure Binary64 where
  negative : Bool
  significand : Nat
  exponent : Int
  deriving DecidableEq, Repr

namespace Binary64

/-- The exponent of the numbers closest to zero. -/
def leastExponent : Int := -1074

/-- The exponent of the largest finite numbers. -/
def greatestExponent : Int := 971

/-- The quotient rounded to the nearest natural number, a tie going to the even one. -/
def roundDiv (num den : Nat) : Nat :=
  let quotient := num / den
  let twice := 2 * (num % den)
  if twice < den then quotient
  else if twice = den then quotient + quotient % 2
  else quotient + 1

/-- Clears a power of two from a ratio: `num · 2 ^ (-e) / den` as numerator and denominator. -/
def scaleBack (num den : Nat) (e : Int) : Nat × Nat :=
  (num * Nat.pow 2 (-e).toNat, den * Nat.pow 2 e.toNat)

/-- The exponent of the leading binary digit of `num / den`. -/
def leadingExponent (num den : Nat) : Int :=
  let guess : Int := (num.log2 : Int) - (den.log2 : Int)
  let scaled := scaleBack num den guess
  if scaled.2 ≤ scaled.1 then guess else guess - 1

/-- Zero with a sign. -/
def zero (negative : Bool) : Binary64 := ⟨negative, 0, leastExponent⟩

/-- The number nearest to `± num / den`, or nothing when it is too large. -/
def ofRatio (negative : Bool) (num den : Nat) : Option Binary64 :=
  if num = 0 then some (zero negative)
  else
    let exponent := max (leadingExponent num den - 52) leastExponent
    let scaled := scaleBack num den exponent
    let rounded := roundDiv scaled.1 scaled.2
    let carried := if rounded = Nat.pow 2 53 then (Nat.pow 2 52, exponent + 1) else (rounded, exponent)
    if greatestExponent < carried.2 then none else some ⟨negative, carried.1, carried.2⟩

/-- The magnitude as numerator and denominator. -/
def ratio (x : Binary64) : Nat × Nat :=
  (x.significand * Nat.pow 2 x.exponent.toNat, Nat.pow 2 (-x.exponent).toNat)

def isZero (x : Binary64) : Bool := x.significand = 0

/-- The product, rounded once; nothing when it is too large. -/
def mul (x y : Binary64) : Option Binary64 :=
  ofRatio (x.negative != y.negative) (x.ratio.1 * y.ratio.1) (x.ratio.2 * y.ratio.2)

/-- The quotient, rounded once; nothing when it is too large. -/
def div (x y : Binary64) : Option Binary64 :=
  ofRatio (x.negative != y.negative) (x.ratio.1 * y.ratio.2) (x.ratio.2 * y.ratio.1)

/-- The number nearest to `10 ^ n`. -/
def powTen (n : Nat) : Option Binary64 := ofRatio false (Nat.pow 10 n) 1

/-- The same magnitude with the given sign. -/
def withSign (negative : Bool) (x : Binary64) : Binary64 := { x with negative }

/-- Equality of the numbers denoted: the two zeros are equal. -/
def sameNumber (x y : Binary64) : Bool := (x.isZero && y.isZero) || x = y

end Binary64

end QueryOutline
