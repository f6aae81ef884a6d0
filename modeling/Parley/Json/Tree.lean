import Parley.Json.Basic
import Parley.Json.Token

/-!
# Parse trees of JSON texts

A text is read in two steps.  First it becomes a `Tree`, which keeps everything the text says:
the fields in the order written, a name that is given twice, the digits of a number.  Then the
tree is turned into a value, or into something typed (`Parley.Json.Decode`).  What a reader does
not ask for is only looked at in the first step, so a number beyond all bounds or half of a
surrogate pair does no harm in a field that is ignored.

The tree is built by a machine over tokens with a stack of the containers that are open, so the
nesting of the text is a stack in the state and not a recursion.
-/

namespace Parley.Json

/-- A JSON text without its white space.  The name of a field is `none` where its text escapes
half of a surrogate pair. -/
inductive Tree where
  | null
  | bool (b : Bool)
  | number (l : Decimal.Literal)
  | string (text : Option String)
  | array (items : List Tree)
  | object (fields : List (Option String × Tree))
  deriving Inhabited

namespace Tree

/-! ## Building -/

/-- A container that is open, with what it holds so far, latest first. -/
inductive Frame where
  | items (done : List Tree)
  /-- An object that awaits the value of the field `name`. -/
  | fields (done : List (Option String × Tree)) (name : Option String)

/-- What may come next, inside the containers of `stack`. -/
inductive Build where
  | value (stack : List Frame)
  /-- After `[`: a value, or the end. -/
  | firstItem (stack : List Frame)
  | afterItem (stack : List Frame) (done : List Tree)
  /-- After `{`: a name, or the end. -/
  | firstName (stack : List Frame)
  | nextName (stack : List Frame) (done : List (Option String × Tree))
  | colon (stack : List Frame) (done : List (Option String × Tree)) (name : Option String)
  | afterField (stack : List Frame) (done : List (Option String × Tree))
  /-- The text is complete. -/
  | complete (t : Tree)

/-- A value was completed inside the containers of `stack`. -/
def Build.put (t : Tree) : List Frame → Build
  | [] => .complete t
  | .items done :: stack => .afterItem stack (t :: done)
  | .fields done name :: stack => .afterField stack ((name, t) :: done)

/-- The state after a token that starts a value. -/
def Build.start (stack : List Frame) : Token → Option Build
  | .null => some (.put .null stack)
  | .bool b => some (.put (.bool b) stack)
  | .number l => some (.put (.number l) stack)
  | .string s => some (.put (.string s) stack)
  | .openArray => some (.firstItem stack)
  | .openObject => some (.firstName stack)
  | _ => none

/-- The state after one more token. -/
def Build.step : Build → Token → Option Build
  | .value stack, t => Build.start stack t
  | .firstItem stack, .closeArray => some (.put (.array []) stack)
  | .firstItem stack, t => Build.start (.items [] :: stack) t
  | .afterItem stack done, .comma => some (.value (.items done :: stack))
  | .afterItem stack done, .closeArray => some (.put (.array done.reverse) stack)
  | .firstName stack, .closeObject => some (.put (.object []) stack)
  | .firstName stack, .string name => some (.colon stack [] name)
  | .nextName stack done, .string name => some (.colon stack done name)
  | .colon stack done name, .colon => some (.value (.fields done name :: stack))
  | .afterField stack done, .comma => some (.nextName stack done)
  | .afterField stack done, .closeObject => some (.put (.object done.reverse) stack)
  | _, _ => none

/-- The tree of some tokens. -/
def ofTokens? (tokens : List Token) : Option Tree :=
  match tokens.foldlM Build.step (.value []) with
  | some (.complete t) => some t
  | _ => none

/-- The tree of a text. -/
def read? (text : String) : Option Tree := do
  ofTokens? (← tokens? text.toList)

/-! ## Turning a tree into a value -/

mutual

/-- How deep arrays and objects are nested. -/
def height : Tree → Nat
  | array items => heightItems items + 1
  | object fields => heightFields fields + 1
  | _ => 0

/-- The height of the highest item. -/
def heightItems : List Tree → Nat
  | [] => 0
  | t :: rest => max (height t) (heightItems rest)

/-- The height of the highest field. -/
def heightFields : List (Option String × Tree) → Nat
  | [] => 0
  | (_, t) :: rest => max (height t) (heightFields rest)

end

/-- The number that a literal stands for. -/
def ofValue : Decimal.Value → Json
  | .int i => .int i
  | .float x => .float x

mutual

/-- The value of a tree; `none` where a number is out of range or a string is no text. -/
def value? : Tree → Option Json
  | null => some .null
  | bool b => some (.bool b)
  | number l => l.value?.map ofValue
  | string text => text.map .str
  | array items => (values? items).map .arr
  | object fields => (fieldValues? fields).map .object

/-- The values of some trees. -/
def values? : List Tree → Option (List Json)
  | [] => some []
  | t :: rest =>
    match value? t, values? rest with
    | some j, some js => some (j :: js)
    | _, _ => none

/-- The names and values of some fields. -/
def fieldValues? : List (Option String × Tree) → Option (List (String × Json))
  | [] => some []
  | (name, t) :: rest =>
    match name, value? t, fieldValues? rest with
    | some k, some j, some more => some ((k, j) :: more)
    | _, _, _ => none

end

end Tree

/-- How deep arrays and objects may nest in a text. -/
def maxNesting : Nat := 127

/-- The value of a text: nested no deeper than `maxNesting`, every number in range. -/
def read? (text : String) : Option Json :=
  match Tree.read? text with
  | some t => if t.height ≤ maxNesting then t.value? else none
  | none => none

end Parley.Json
