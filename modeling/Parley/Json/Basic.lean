import Parley.Decimal.Binary

/-!
# JSON values

Arguments of tools, their schemas, and the parameters of calls are JSON of any shape, so they are
kept as values of `Json`.  Two points matter everywhere.

* **Numbers come in two kinds.**  An integer is exact; everything else is floating point.  The
  two are never equal, `1` and `1.0` included, while `0.0` and `-0.0` are.
* **The fields of an object have an order,** the order in which they are written.  A value that
  was read has its fields sorted by name, with one field per name (`Json.object`); a value that
  the program composes may fix another order, which then is the order of its text.
-/

namespace Parley

/-- A JSON value. -/
inductive Json where
  | null
  | bool (b : Bool)
  | int (i : Int)
  | float (x : Decimal.Binary)
  | str (s : String)
  | arr (items : List Json)
  | obj (fields : List (String × Json))
  deriving Inhabited

namespace Json

/-! ## Looking inside -/

/-- The value of the first field with the given name in a list of fields. -/
def lookup (name : String) : List (String × Json) → Option Json
  | [] => none
  | (k, v) :: rest => if k = name then some v else lookup name rest

/-- The field of an object, if the value is an object that has it. -/
def get? (name : String) : Json → Option Json
  | obj fields => lookup name fields
  | _ => none

/-- The field of an object, and `null` when there is none. -/
def field (j : Json) (name : String) : Json :=
  (j.get? name).getD null

/-- The text of a string. -/
def str? : Json → Option String
  | str s => some s
  | _ => none

/-- The truth value of a boolean. -/
def bool? : Json → Option Bool
  | bool b => some b
  | _ => none

/-- The number of a whole number that is not negative. -/
def nat? : Json → Option Nat
  | int i => if 0 ≤ i then some i.toNat else none
  | _ => none

/-- The items of an array. -/
def arr? : Json → Option (List Json)
  | arr items => some items
  | _ => none

/-- The fields of an object. -/
def obj? : Json → Option (List (String × Json))
  | obj fields => some fields
  | _ => none

/-- Whether the value is `null`. -/
def isNull : Json → Bool
  | null => true
  | _ => false

/-! ## Composing -/

/-- A field put into fields sorted by name, in place of the one of that name. -/
def insertField (name : String) (value : Json) : List (String × Json) → List (String × Json)
  | [] => [(name, value)]
  | (k, v) :: rest =>
    if name = k then (name, value) :: rest
    else if name < k then (name, value) :: (k, v) :: rest
    else (k, v) :: insertField name value rest

/-- Fields sorted by name; of two with one name the last stays. -/
def sortFields (fields : List (String × Json)) : List (String × Json) :=
  fields.foldl (fun sorted f => insertField f.1 f.2 sorted) []

/-- The object with the given fields, sorted by name; of two with one name the last stays. -/
def object (fields : List (String × Json)) : Json :=
  obj (sortFields fields)

/-- A text, or `null`. -/
def ofText? (s : Option String) : Json :=
  s.elim null str

/-- A natural number. -/
def ofNat (n : Nat) : Json := int n

/-- An array of texts. -/
def texts (items : List String) : Json := arr (items.map str)

/-! ## Equality -/

mutual

/-- Equality of values; of floating-point numbers as numbers. -/
def same : Json → Json → Bool
  | null, null => true
  | bool a, bool b => a == b
  | int a, int b => a == b
  | float a, float b => a.same b
  | str a, str b => a == b
  | arr as, arr bs => sameItems as bs
  | obj as, obj bs => sameFields as bs
  | _, _ => false

/-- Equality of items one by one. -/
def sameItems : List Json → List Json → Bool
  | [], [] => true
  | a :: as, b :: bs => same a b && sameItems as bs
  | _, _ => false

/-- Equality of fields one by one. -/
def sameFields : List (String × Json) → List (String × Json) → Bool
  | [], [] => true
  | (k, a) :: as, (l, b) :: bs => k == l && same a b && sameFields as bs
  | _, _ => false

end

instance : BEq Json := ⟨same⟩

end Json

end Parley
