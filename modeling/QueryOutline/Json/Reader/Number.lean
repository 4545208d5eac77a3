import QueryOutline.Json.Reader.Text
import QueryOutline.Json.Value

/-!
# Reading JSON numbers

Digits are gathered into a significand of 64 bits. A number without fraction and exponent stays an integer when it fits
64 bits; every other one becomes `significand · 10 ^ exponent`, which takes one rounding for the significand and one for
each multiplication or division by a power of ten.

* **Long numbers**: an integer digit that no longer fits adds one to the exponent, a fraction digit that no longer fits
  is dropped.
* **Range** (`scale`): a number too large is refused, a number too small becomes zero.
-/

namespace QueryOutline.Json

/-- Appends decimal digits to a number while it stays below the limit; returns the digits that no longer fit. -/
def gather (limit : Nat) : Nat → List Char → Nat × List Char
  | n, [] => (n, [])
  | n, c :: rest =>
    let next := n * 10 + (c.toNat - '0'.toNat)
    if next < limit then gather limit next rest else (n, c :: rest)

/-- The greatest power of ten that is used in one step. -/
def greatestPower : Nat := 308

/-- Divides by the greatest power of ten up to `steps` times, then by `10 ^ last`. -/
def scaleDown : Nat → Nat → Binary64 → Option Binary64
  | 0, last, x => do x.div (← Binary64.powTen last)
  | steps + 1, last, x =>
    if x.isZero then some x else do scaleDown steps last (← x.div (← Binary64.powTen greatestPower))

/-- `significand · 10 ^ exponent`, or nothing when it is too large. -/
def scale (significand : Nat) (exponent : Int) : Option Binary64 := do
  let x ← Binary64.ofRatio false significand 1
  if 0 ≤ exponent then
    if exponent ≤ greatestPower then x.mul (← Binary64.powTen exponent.toNat)
    else if x.isZero then some x else none
  else
    let places := exponent.natAbs
    let steps := (places - 1) / greatestPower
    scaleDown steps (places - steps * greatestPower) x

/-- The number with the given sign, significand and exponent. -/
def finish (negative : Bool) (significand : Nat) (exponent : Int) (rest : List Char) : Reading Number :=
  match scale significand exponent with
  | some x => .ok (.real (x.withSign negative), rest)
  | none => atLast .numberOutOfRange rest

/-- The digits of an exponent of 32 bits. One too large makes a positive power out of range and any other zero. -/
def readExponentDigits (negative : Bool) (significand : Nat) (exponent : Int) (down : Bool) (text : List Char) :
    Reading Number :=
  let digits := text.takeWhile Char.isDigit
  let rest := text.dropWhile Char.isDigit
  match text with
  | [] => atEnd .endInValue
  | _ =>
    if digits = [] then atNext .invalidNumber text
    else match gather (Nat.pow 2 31) 0 digits with
      | (x, []) => finish negative significand (if down then exponent - x else exponent + x) rest
      | (_, _ :: unread) =>
        if significand ≠ 0 ∧ !down then atLast .numberOutOfRange (unread ++ rest)
        else .ok (.real (.zero negative), rest)

def isExponentMark (c : Char) : Bool := c = 'e' || c = 'E'

/-- What follows an exponent mark. -/
def readExponent (negative : Bool) (significand : Nat) (exponent : Int) : List Char → Reading Number
  | '+' :: rest => readExponentDigits negative significand exponent false rest
  | '-' :: rest => readExponentDigits negative significand exponent true rest
  | rest => readExponentDigits negative significand exponent false rest

/-- What follows the point. -/
def readFraction (negative : Bool) (significand : Nat) (exponent : Int) (text : List Char) : Reading Number :=
  let digits := text.takeWhile Char.isDigit
  let rest := text.dropWhile Char.isDigit
  if digits = [] then
    match rest with
    | [] => atEnd .endInValue
    | _ => atNext .invalidNumber rest
  else
    let gathered := gather (Nat.pow 2 64) significand digits
    let exponent := exponent - (digits.length - gathered.2.length : Nat)
    match rest with
    | c :: tail =>
      if isExponentMark c then readExponent negative gathered.1 exponent tail
      else finish negative gathered.1 exponent rest
    | [] => finish negative gathered.1 exponent rest

/-- A number without fraction and exponent whose digits fit 64 bits. -/
def wholeNumber (negative : Bool) (n : Nat) (rest : List Char) : Reading Number :=
  if !negative then .ok (.integer n, rest)
  else if 0 < n ∧ n ≤ Nat.pow 2 63 then .ok (.integer (-n), rest)
  else finish true n 0 rest

/-- A number after its sign. -/
def readNumber (negative : Bool) (text : List Char) : Reading Number :=
  let digits := text.takeWhile Char.isDigit
  let rest := text.dropWhile Char.isDigit
  match digits with
  | [] =>
    match text with
    | [] => atEnd .endInValue
    | _ => atNext .invalidNumber text
  | '0' :: second :: more => atNext .invalidNumber (second :: more ++ rest)
  | _ =>
    let gathered := gather (Nat.pow 2 64) 0 digits
    let exponent : Int := gathered.2.length
    match rest with
    | '.' :: tail => readFraction negative gathered.1 exponent tail
    | c :: tail =>
      if isExponentMark c then readExponent negative gathered.1 exponent tail
      else if gathered.2 = [] then wholeNumber negative gathered.1 rest
      else finish negative gathered.1 exponent rest
    | [] =>
      if gathered.2 = [] then wholeNumber negative gathered.1 rest
      else finish negative gathered.1 exponent rest

end QueryOutline.Json
