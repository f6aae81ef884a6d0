import Parley.Json.Basic
import Parley.Json.Printer

/-!
# Checking arguments against a schema

Arguments are checked before a tool sees them, against the part of JSON Schema that the tools
use: whether the arguments are an object, which fields are required, the types of fields, the
values a field is restricted to, and the type of the items of arrays.  A field that holds `null`
counts as absent.  What a schema says beyond that is not looked at.

`violation?` gives the first fault: of the arguments as a whole, then of the required fields in
the order of the schema, then of the fields in the order of their names.
-/

namespace Parley.Tool.Schema

/-- A fault in some arguments; `field` is the one at fault, when it is one. -/
structure Violation where
  field : Option String
  reason : String
  deriving DecidableEq, Repr

/-- The name of the type of a value. -/
def typeName : Json → String
  | .null => "null"
  | .bool _ => "boolean"
  | .int _ | .float _ => "number"
  | .str _ => "string"
  | .arr _ => "array"
  | .obj _ => "object"

/-- Whether a value is of a named type; a name that is not known admits every value. -/
def hasType (v : Json) (type : String) : Bool :=
  match type, v with
  | "string", .str _ | "number", .int _ | "number", .float _ | "integer", .int _
  | "boolean", .bool _ | "object", .obj _ | "array", .arr _ | "null", .null => true
  | type, _ =>
    !(["string", "number", "integer", "boolean", "object", "array", "null"].contains type)

/-- The text under a field of a schema. -/
def textAt? (schema : Json) (name : String) : Option String :=
  (schema.get? name).bind Json.str?

/-! ## One field -/

/-- A field whose value is not of its type. -/
def typeFault? (name : String) (v property : Json) : Option String := do
  let type ← textAt? property "type"
  if hasType v type then none
  else some ("field '" ++ name ++ "' expected type '" ++ type ++ "', got " ++ typeName v)

/-- A field whose value is none of those it is restricted to. -/
def choiceFault? (name : String) (v property : Json) : Option String := do
  let choices ← (property.get? "enum").bind Json.arr?
  if choices.any (·.same v) then none
  else
    some ("field '" ++ name ++ "' must be one of [" ++
      ", ".intercalate (choices.map Json.compact) ++ "], got " ++ v.compact)

/-- A field that holds an array with an item of the wrong type. -/
def itemFault? (name : String) (v property : Json) : Option String := do
  let items ← v.arr?
  let type ← (property.get? "items").bind (textAt? · "type")
  let bad ← items.find? fun item => !hasType item type
  some ("field '" ++ name ++ "' expected items of type '" ++ type ++ "', got " ++ typeName bad)

/-- The first fault of the value of a field. -/
def fieldFault? (name : String) (v property : Json) : Option String :=
  (typeFault? name v property).or ((choiceFault? name v property).or (itemFault? name v property))

/-! ## All fields -/

/-- Whether a value stands for no value. -/
def isAbsent (v : Option Json) : Bool :=
  match v with
  | none | some .null => true
  | _ => false

/-- The first required field that is absent. -/
def missing? (fields : List (String × Json)) (schema : Json) : Option Violation := do
  let required ← (schema.get? "required").bind Json.arr?
  let name ← (required.filterMap Json.str?).find? fun name => isAbsent (Json.lookup name fields)
  some ⟨some name, "missing required field '" ++ name ++ "'"⟩

/-- The fault of one field. -/
def faultOf? (properties : List (String × Json)) (field : String × Json) : Option Violation := do
  if field.2.isNull then none else
  let property ← Json.lookup field.1 properties
  let reason ← fieldFault? field.1 field.2 property
  some ⟨some field.1, reason⟩

/-- The first field with a fault. -/
def faulty? (fields : List (String × Json)) (schema : Json) : Option Violation := do
  let properties ← (schema.get? "properties").bind Json.obj?
  fields.findSome? (faultOf? properties)

/-- The first fault of some arguments. -/
def violation? (arguments schema : Json) : Option Violation :=
  match arguments with
  | .obj fields => (missing? fields schema).or (faulty? fields schema)
  | other =>
    if textAt? schema "type" = some "object" then
      some ⟨none, "expected object arguments, got " ++ typeName other⟩
    else none

end Parley.Tool.Schema
