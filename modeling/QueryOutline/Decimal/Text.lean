import QueryOutline.Decimal.Shortest

/-!
# Writing decimals

A decimal is written plainly (`0.25`, `100.0`) or with an exponent (`1e+20`, `2.5e-7`); `Decimal.Style` says for which
exponents of the leading digit it is written plainly.
-/

namespace QueryOutline

/-- The decimal digits of a natural number. -/
def digitsOf (n : Nat) : List Char := Nat.toDigits 10 n

namespace Decimal

/-- The exponents of the leading digit that are written without an exponent mark. -/
structure Style where
  plainFrom : Int
  plainBelow : Int

/-- The exponent of the leading digit. -/
def leading (d : Decimal) : Int := d.exponent + (digitsOf d.digits).length - 1

/-- Without an exponent mark and with at least one digit on both sides of the point. -/
def plainText (d : Decimal) : List Char :=
  let ds := digitsOf d.digits
  if 0 ≤ d.exponent then ds ++ List.replicate d.exponent.toNat '0' ++ ['.', '0']
  else
    let places := (-d.exponent).toNat
    if places < ds.length then ds.take (ds.length - places) ++ '.' :: ds.drop (ds.length - places)
    else '0' :: '.' :: (List.replicate (places - ds.length) '0' ++ ds)

/-- One digit before the point, the point only before further digits, and a signed exponent. -/
def exponentText (d : Decimal) : List Char :=
  let fraction := match digitsOf d.digits with
    | first :: second :: rest => first :: '.' :: second :: rest
    | ds => ds
  let x := d.leading
  fraction ++ 'e' :: (if x < 0 then '-' else '+') :: digitsOf x.natAbs

/-- The decimal in the given style; zero is written plainly. -/
def text (style : Style) (d : Decimal) : List Char :=
  if d.digits = 0 ∨ (style.plainFrom ≤ d.leading ∧ d.leading < style.plainBelow) then d.plainText
  else d.exponentText

end Decimal

end QueryOutline
