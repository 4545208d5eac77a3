import QueryOutline.Binary64

/-!
# JSON values

* **Numbers** are integers of 64 bits or finite binary floating-point numbers.
* **Objects** list their fields; a reader delivers them in increasing order of the keys.
* **Equality** (`Value.same`) compares numbers within their class by the number denoted.
* **Measures**: the nesting of arrays and objects (`Value.depth`) and the number of values (`Value.size`).
-/

namespace QueryOutline.Json

/-- A number; only integers from `-2 ^ 63` to `2 ^ 64 - 1` are read as integers. -/
inductive Number where
  | integer (value : Int)
  | real (value : Binary64)
  deriving DecidableEq, Repr

inductive Value where
  | null
  | bool (value : Bool)
  | number (value : Number)
  | string (value : String)
  | array (items : List Value)
  | object (fields : List (String × Value))
  deriving Repr

instance : Inhabited Value := ⟨.null⟩

/-- Equality of numbers: an integer never equals a floating-point number, and the two zeros are equal. -/
def Number.same : Number → Number → Bool
  | .integer a, .integer b => a = b
  | .real a, .real b => a.sameNumber b
  | _, _ => false

namespace Value

mutual

/-- Equality of values up to `Number.same`. -/
def same : Value → Value → Bool
  | .null, .null => true
  | .bool a, .bool b => a = b
  | .number a, .number b => a.same b
  | .string a, .string b => a = b
  | .array a, .array b => sameItems a b
  | .object a, .object b => sameFields a b
  | _, _ => false
termination_by structural a => a

def sameItems : List Value → List Value → Bool
  | [], [] => true
  | a :: as, b :: bs => same a b && sameItems as bs
  | _, _ => false
termination_by structural as => as

def sameFields : List (String × Value) → List (String × Value) → Bool
  | [], [] => true
  | (k, a) :: as, (l, b) :: bs => k = l && same a b && sameFields as bs
  | _, _ => false
termination_by structural as => as

end

/-- The value of a field of an object; nothing for any other value. -/
def field? (name : String) : Value → Option Value
  | .object fields => fields.lookup name
  | _ => none

/-- The text of a string value. -/
def string? : Value → Option String
  | .string s => some s
  | _ => none

/-- The items of an array. -/
def array? : Value → Option (List Value)
  | .array items => some items
  | _ => none

/-- The direct parts of an array or object, in order. -/
def parts : Value → List Value
  | .array items => items
  | .object fields => fields.map Prod.snd
  | _ => []

mutual

/-- The number of arrays and objects on the deepest path through the value. -/
def depth : Value → Nat
  | .array items => depthOfItems items + 1
  | .object fields => depthOfFields fields + 1
  | _ => 0
termination_by structural v => v

def depthOfItems : List Value → Nat
  | [] => 0
  | v :: vs => max (depth v) (depthOfItems vs)
termination_by structural vs => vs

def depthOfFields : List (String × Value) → Nat
  | [] => 0
  | (_, v) :: fs => max (depth v) (depthOfFields fs)
termination_by structural fs => fs

end

mutual

/-- The number of values in the value, itself included. -/
def size : Value → Nat
  | .array items => sizeOfItems items + 1
  | .object fields => sizeOfFields fields + 1
  | _ => 1
termination_by structural v => v

def sizeOfItems : List Value → Nat
  | [] => 0
  | v :: vs => size v + sizeOfItems vs
termination_by structural vs => vs

def sizeOfFields : List (String × Value) → Nat
  | [] => 0
  | (_, v) :: fs => size v + sizeOfFields fs
termination_by structural fs => fs

end

theorem sizeOfItems_append : ∀ vs ws : List Value, sizeOfItems (vs ++ ws) = sizeOfItems vs + sizeOfItems ws
  | [], ws => by simp [sizeOfItems]
  | v :: vs, ws => by simp only [List.cons_append, sizeOfItems, sizeOfItems_append vs ws]; omega

theorem sizeOfItems_values : ∀ fs : List (String × Value), sizeOfItems (fs.map Prod.snd) = sizeOfFields fs
  | [] => rfl
  | (_, v) :: fs => by simp only [List.map_cons, sizeOfItems, sizeOfFields, sizeOfItems_values fs]

/-- A value is one more than its parts. -/
theorem sizeOfItems_parts (v : Value) : sizeOfItems v.parts + 1 = v.size := by
  cases v with
  | object fields => simp only [parts, size, sizeOfItems_values]
  | _ => simp [parts, size, sizeOfItems]

end Value

end QueryOutline.Json
