import QueryOutline.Keyed

/-!
# TOML values and tables under construction

A document is built statement by statement. `Fields` holds the tables made so far, each with its origin, which decides
how it may still be extended.

* **Assignments** (`assign`): a dotted key passes through tables that dotted keys made, and no key is assigned twice.
* **Headers** (`openTable`, `openElement`): a table is opened once, unless so far it was only implied by the headers of
  its subtables; an array of tables grows by one element each time.
* **Closed values**: inline tables and bracketed arrays are never extended.
-/

namespace QueryOutline.Toml

inductive Value where
  | string (value : String)
  /-- An integer; it has no value when its digits do not all belong to its base, or when there are none. -/
  | integer (value : Option Int)
  /-- A floating-point number; `inRange` fails for a number that is too large to be finite. -/
  | real (inRange : Bool)
  | bool (value : Bool)
  /-- A date, a time or both. -/
  | moment
  | array (items : List Value)
  | table (fields : List (String × Value))
  deriving Repr

/-- How a table came about. -/
inductive Origin where
  /-- Its own header. -/
  | header
  /-- The header of a table below it. -/
  | implied
  /-- A dotted key. -/
  | dotted
  deriving DecidableEq, Repr

/-- What stands under a key while the document is read. -/
inductive Item where
  | value (value : Value)
  | table (origin : Origin) (fields : List (String × Item))
  /-- An array of tables; the last one is still open. -/
  | tables (earlier : List Item) (last : List (String × Item))

abbrev Fields := List (String × Item)

mutual

/-- The finished value of an item. -/
def Item.close : Item → Value
  | .value v => v
  | .table _ fields => .table (closeFields fields)
  | .tables earlier last => .array (closeItems earlier ++ [.table (closeFields last)])
termination_by structural item => item

def closeItems : List Item → List Value
  | [] => []
  | item :: items => item.close :: closeItems items
termination_by structural items => items

/-- The finished values of the fields of a table. -/
def closeFields : List (String × Item) → List (String × Value)
  | [] => []
  | (key, item) :: fields => (key, item.close) :: closeFields fields
termination_by structural fields => fields

end

/-- Changes the table at a path below the given one; missing tables on the way are made, and of an array of tables the
path enters the last. A dotted path does not enter tables that have a header. -/
def changeAt (dotted : Bool) (change : Origin → Fields → Option Fields) :
    List String → Origin → Fields → Option Fields
  | [], origin, fields => change origin fields
  | key :: path, _, fields =>
    match fields.lookup key with
    | none =>
      let made := if dotted then Origin.dotted else Origin.implied
      (changeAt dotted change path made []).map fun inner => Keyed.put key (.table made inner) fields
    | some (.table origin inner) =>
      if dotted && origin = .header then none
      else (changeAt dotted change path origin inner).map fun inner => Keyed.put key (.table origin inner) fields
    | some (.tables earlier last) =>
      (changeAt dotted change path .header last).map fun last => Keyed.put key (.tables earlier last) fields
    | some (.value _) => none

/-- Assigns a value to a key, given with the dotted path before it, of the table. -/
def assign (path : List String) (key : String) (value : Value) (origin : Origin) (fields : Fields) : Option Fields :=
  let change (parent : Origin) (fields : Fields) : Option Fields :=
    if (parent = .dotted) = path.isEmpty then none
    else if (fields.lookup key).isSome then none
    else some (Keyed.put key (.value value) fields)
  changeAt (!path.isEmpty) change path origin fields

/-- Opens the table under a key of a table. -/
def openTable (key : String) (_ : Origin) (fields : Fields) : Option Fields :=
  match fields.lookup key with
  | none => some (Keyed.put key (.table .header []) fields)
  | some (.table .implied inner) => some (Keyed.put key (.table .header inner) fields)
  | some _ => none

/-- Opens a further element of the array of tables under a key of a table. -/
def openElement (key : String) (_ : Origin) (fields : Fields) : Option Fields :=
  match fields.lookup key with
  | none => some (Keyed.put key (.tables [] []) fields)
  | some (.tables earlier last) => some (Keyed.put key (.tables (earlier ++ [.table .header last]) []) fields)
  | some _ => none

/-- One statement of a document; keys are given with the dotted path before them. -/
inductive Statement where
  | table (path : List String) (key : String)
  | element (path : List String) (key : String)
  | assignment (path : List String) (key : String) (value : Value)

/-- The open table's path and all tables. -/
structure State where
  opened : List String
  fields : Fields

def State.start : State := ⟨[], []⟩

def State.perform (state : State) : Statement → Option State
  | .table path key =>
    (changeAt false (openTable key) path .header state.fields).map fun fields => ⟨path ++ [key], fields⟩
  | .element path key =>
    (changeAt false (openElement key) path .header state.fields).map fun fields => ⟨path ++ [key], fields⟩
  | .assignment path key value =>
    (changeAt false (assign path key value) state.opened .header state.fields).map fun fields =>
      { state with fields }

/-- The fields of the document that the statements make. -/
def build (statements : List Statement) : Option (List (String × Value)) :=
  (statements.foldlM State.perform State.start).map fun state => closeFields state.fields

end QueryOutline.Toml
