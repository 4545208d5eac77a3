import QueryOutline.Binary64
import QueryOutline.Toml.Value

/-!
# Unquoted TOML scalars

An unquoted scalar is judged as a whole word: truth values, integers in four bases, floating-point numbers, and dates
and times. The word may hold blanks, as between a date and a time.

* **Underscores** (`isGrouped`): each stands between two digits, or between the sign and a digit.
* **Integers** (`integer?`, `based?`): in a decimal integer with underscores the digits are not checked, and a base may
  come without digits. Such an integer is well formed, but it has no value.
* **Words** (`readWord`, `readScalar`): the word at the front of a text.
-/

namespace QueryOutline.Toml

/-- Whether each underscore has a digit behind it, and a digit or nothing but a sign before it. -/
def isGrouped (isDigit : Char → Bool) (afterDigit : Bool) : List Char → Bool
  | [] => true
  | '_' :: rest => afterDigit && (rest.head?.map isDigit).getD false && isGrouped isDigit false rest
  | c :: rest => isGrouped isDigit (isDigit c) rest

/-- At least one digit; otherwise digits and underscores. -/
def isDigits (isDigit : Char → Bool) (text : List Char) : Bool :=
  text.any isDigit && text.all fun c => isDigit c || c = '_'

/-- The value of a digit in any base up to 16. -/
def digitValue (c : Char) : Nat :=
  if c.isDigit then c.toNat - '0'.toNat else (c.toNat - 'A'.toNat) % 32 + 10

def isHexDigit (c : Char) : Bool := c.isDigit || ('a' ≤ c && c ≤ 'f') || ('A' ≤ c && c ≤ 'F')

/-- The number that grouped digits denote. -/
def digitsValue (base : Nat) (digits : List Char) : Nat :=
  (digits.filter (· ≠ '_')).foldl (fun n c => n * base + digitValue c) 0

/-- Whether there is a zero in front of other digits. -/
def hasLeadingZero (digits : List Char) : Bool :=
  digits.head? = some '0' && 1 < (digits.filter Char.isDigit).length

/-! ## Numbers -/

/-- Whether `digits · 10 ^ exponent` rounds to a finite number. -/
def isFinite (digits : Nat) (exponent : Int) : Bool :=
  if digits = 0 then true
  else
    let magnitude := exponent + (Nat.toDigits 10 digits).length
    if magnitude < 300 then true
    else if 400 < magnitude then false
    else (Binary64.ofRatio false (digits * Nat.pow 10 exponent.toNat) (Nat.pow 10 (-exponent).toNat)).isSome

/-- Whether there is a sign, whether it is a minus, and what follows it. -/
def splitSign : List Char → Bool × Bool × List Char
  | '-' :: rest => (true, true, rest)
  | '+' :: rest => (true, false, rest)
  | rest => (false, false, rest)

/-- A number with a fraction or an exponent, given with whether it has a sign and what follows the sign. -/
def real? (signed : Bool) (word : List Char) : Option Value :=
  let isMark (c : Char) : Bool := c = 'e' || c = 'E'
  let mantissa := word.takeWhile (!isMark ·)
  let power := (word.dropWhile (!isMark ·)).drop 1
  let whole := mantissa.takeWhile (· ≠ '.')
  let fraction := (mantissa.dropWhile (· ≠ '.')).drop 1
  let hasFraction := whole.length < mantissa.length
  let hasPower := mantissa.length < word.length
  let (_, down, powerDigits) := splitSign power
  if isDigits Char.isDigit whole && !hasLeadingZero whole && (!hasFraction || isDigits Char.isDigit fraction)
      && (!hasPower || isDigits Char.isDigit powerDigits) && (hasFraction || hasPower)
      && isGrouped Char.isDigit signed word then
    let digits := digitsValue 10 (whole ++ fraction)
    let places := (fraction.filter (· ≠ '_')).length
    let exponent : Int := digitsValue 10 powerDigits
    some (.real (isFinite digits ((if down then -exponent else exponent) - places)))
  else none

/-- A decimal integer, given with its sign and what follows the sign. Once an underscore has followed the first digits,
anything may come that is no space and does not make a number with a fraction or an exponent. -/
def integer? (signed negative : Bool) (word : List Char) : Option Value :=
  let tail := word.dropWhile Char.isDigit
  let isPlain := isDigits Char.isDigit word
  if word.head? = some '0' && word ≠ ['0'] then none
  else if isPlain && tail = [] || tail.head? = some '_' && isGrouped isHexDigit signed word
      && tail.all (fun c => c ∉ [' ', '.', 'e', 'E']) then
    let n : Int := digitsValue 10 word
    some (.integer (if isPlain then some (if negative then -n else n) else none))
  else none

/-- An integer in base 16, 8 or 2. -/
def based? (word : List Char) : Option Value :=
  let read (base : Nat) (isDigit : Char → Bool) (digits : List Char) : Option Value :=
    if digits = [] then some (.integer none)
    else if isDigits isDigit digits && isGrouped isDigit false digits then
      some (.integer (some (digitsValue base digits)))
    else none
  match word with
  | '0' :: 'x' :: digits => read 16 isHexDigit digits
  | '0' :: 'o' :: digits => read 8 (fun c => '0' ≤ c && c ≤ '7') digits
  | '0' :: 'b' :: digits => read 2 (fun c => c = '0' || c = '1') digits
  | _ => none

/-- A number that may carry a sign. -/
def signed? (word : List Char) : Option Value :=
  let (signed, negative, rest) := splitSign word
  if rest = ['i', 'n', 'f'] || rest = ['n', 'a', 'n'] then some (.real true)
  else (integer? signed negative rest).or (real? signed rest)

/-! ## Dates and times -/

/-- A number of exactly `count` digits and the rest. -/
def fixedNumber? (count : Nat) (text : List Char) : Option (Nat × List Char) :=
  let digits := text.take count
  if digits.length = count && digits.all Char.isDigit then some (digitsValue 10 digits, text.drop count) else none

/-- The given character and the rest after it. -/
def after? (c : Char) : List Char → Option (List Char)
  | d :: rest => if d = c then some rest else none
  | [] => none

def daysIn (year month : Nat) : Nat :=
  if month = 2 then
    if year % 4 = 0 && (year % 100 ≠ 0 || year % 400 = 0) then 29 else 28
  else if month ∈ [4, 6, 9, 11] then 30 else 31

/-- The rest after a date of the calendar. -/
def afterDate? (text : List Char) : Option (List Char) := do
  let (year, rest) ← fixedNumber? 4 text
  let (month, rest) ← fixedNumber? 2 (← after? '-' rest)
  let (day, rest) ← fixedNumber? 2 (← after? '-' rest)
  if 1 ≤ month && month ≤ 12 && 1 ≤ day && day ≤ daysIn year month then some rest else none

/-- The rest after hours and minutes. -/
def afterMinutes? (text : List Char) : Option (List Char) := do
  let (hour, rest) ← fixedNumber? 2 text
  let (minute, rest) ← fixedNumber? 2 (← after? ':' rest)
  if hour ≤ 23 && minute ≤ 59 then some rest else none

/-- The rest after a time of day; seconds and their fraction may be missing. -/
def afterTime? (text : List Char) : Option (List Char) := do
  let rest ← afterMinutes? text
  match rest with
  | ':' :: rest =>
    let (second, rest) ← fixedNumber? 2 rest
    if 60 < second then none
    else match rest with
      | '.' :: fraction =>
        if (fraction.head?.map Char.isDigit).getD false then some (fraction.dropWhile Char.isDigit) else none
      | rest => some rest
  | rest => some rest

/-- Whether the text is the distance from universal time, or nothing. -/
def isOffset : List Char → Bool
  | [] => true
  | ['Z'] => true
  | ['z'] => true
  | '+' :: rest => afterMinutes? rest = some []
  | '-' :: rest => afterMinutes? rest = some []
  | _ => false

/-- Whether the word is a date, a time or both. -/
def isMoment (word : List Char) : Bool :=
  match afterDate? word with
  | some [] => true
  | some (mark :: rest) =>
    (mark = 'T' || mark = 't' || mark = ' ') && ((afterTime? rest).map isOffset).getD false
  | none => afterTime? word = some []

/-! ## Words -/

/-- The value of an unquoted word. -/
def scalar? (word : List Char) : Option Value :=
  if word = ['t', 'r', 'u', 'e'] then some (.bool true)
  else if word = ['f', 'a', 'l', 's', 'e'] then some (.bool false)
  else if isMoment word then some .moment
  else (based? word).or (signed? word)

def isBlank (c : Char) : Bool := c = ' ' || c = '\t'

/-- The characters that end an unquoted word. -/
def endsWord (c : Char) : Bool := c ∈ ['=', ',', '[', ']', '{', '}', '#', '\n', '\r']

/-- The characters with which a word does not go on after blanks. -/
def endsAfterBlank (c : Char) : Bool := endsWord c || c = '.' || c = '"' || c = '\''

/-- An unquoted word and the rest after it. Blanks belong to the word when it goes on after them. -/
def readWord : List Char → List Char × List Char
  | [] => ([], [])
  | c :: rest =>
    let ends := if isBlank c then ((rest.dropWhile isBlank).head?.map endsAfterBlank).getD true else endsWord c
    if ends then ([], c :: rest)
    else
      let (word, rest) := readWord rest
      (c :: word, rest)

/-- An unquoted scalar at the front of a text. -/
def readScalar (text : List Char) : Option (Value × List Char) :=
  let (word, rest) := readWord text
  (scalar? word).map fun value => (value, rest)

end QueryOutline.Toml
