import QueryOutline.Binary64

/-!
# The shortest decimal that reads back

Every number owns an interval of reals that round to it. Among the decimals in that interval, `Binary64.shortest`
takes one with the fewest digits, of those the nearest to the number, and of two equally near the even one. The search
goes through the grids `10 ^ p` from coarse to fine; on each grid only the two neighbours of the number matter.
-/

namespace QueryOutline

/-- The decimal `digits · 10 ^ exponent`. -/
structure Decimal where
  digits : Nat
  exponent : Int
  deriving DecidableEq, Repr

namespace Decimal

/-- The same decimal without trailing zeros; `bound` limits how many are removed. -/
def trimZeros : Nat → Decimal → Decimal
  | 0, d => d
  | bound + 1, d =>
    if d.digits ≠ 0 ∧ d.digits % 10 = 0 then trimZeros bound ⟨d.digits / 10, d.exponent + 1⟩ else d

end Decimal

namespace Binary64

/-- The ends of the interval of reals that round to the number, in quarters of the last binary digit. Directly below a
power of two the numbers are twice as dense, so the lower end is only a quarter away. -/
def quarters (x : Binary64) : Nat × Nat :=
  let lower := if x.significand = Nat.pow 2 52 ∧ leastExponent < x.exponent then 1 else 2
  (4 * x.significand - lower, 4 * x.significand + 2)

/-- Whether `digits · 10 ^ p` rounds to the number. -/
def readsBack (x : Binary64) (digits : Nat) (p : Int) : Bool :=
  let value := digits * Nat.pow 10 p.toNat * Nat.pow 2 (2 - x.exponent).toNat
  let unit := Nat.pow 10 (-p).toNat * Nat.pow 2 (x.exponent - 2).toNat
  let low := x.quarters.1 * unit
  let high := x.quarters.2 * unit
  if x.significand % 2 = 0 then low ≤ value && value ≤ high else low < value && value < high

/-- The nearest decimal on the grid `10 ^ p` that reads back. -/
def onGrid? (x : Binary64) (p : Int) : Option Decimal :=
  let num := x.ratio.1 * Nat.pow 10 (-p).toNat
  let den := x.ratio.2 * Nat.pow 10 p.toNat
  let below := num / den
  let near := roundDiv num den
  let far := if near = below then below + 1 else below
  if x.readsBack near p then some ⟨near, p⟩
  else if x.readsBack far p then some ⟨far, p⟩
  else none

/-- The first grid from `10 ^ p` downwards, of at most `bound` many, with a decimal that reads back. -/
def shortestFrom (x : Binary64) : Nat → Int → Decimal
  | 0, p => ⟨roundDiv (x.ratio.1 * Nat.pow 10 (-p).toNat) (x.ratio.2 * Nat.pow 10 p.toNat), p⟩
  | bound + 1, p => (x.onGrid? p).getD (shortestFrom x bound (p - 1))

/-- The shortest decimal of the magnitude. The first grid is coarser than the number and the twentieth finer than its
interval: 17 digits always suffice. -/
def shortest (x : Binary64) : Decimal :=
  if x.isZero then ⟨0, 0⟩
  else
    let top := Int.fdiv ((leadingExponent x.ratio.1 x.ratio.2 + 1) * 30103) 100000 + 1
    Decimal.trimZeros 20 (shortestFrom x 20 top)

end Binary64

end QueryOutline
