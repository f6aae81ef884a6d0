import Parley.Error
import Parley.Tool.Basic
import Parley.Tool.Schema

/-!
# The registry of tools

The registry holds at most one tool under each name, in the order of their names, so that the
model always sees the same list.  `reach` decides whether a call may reach a handler: the name
has to be known, and the arguments have to satisfy the schema.
-/

namespace Parley

/-- The tools by name. -/
structure Registry where
  tools : List Tool := []

namespace Registry

/-- A tool put into its place, over the one of its name. -/
def place (t : Tool) : List Tool → List Tool
  | [] => [t]
  | u :: rest =>
    if t.name = u.name then t :: rest
    else if t.name < u.name then t :: u :: rest
    else u :: place t rest

/-- The tool of a name. -/
def get? (r : Registry) (name : String) : Option Tool := r.tools.find? (·.name = name)

/-- Whether a name is taken. -/
def contains (r : Registry) (name : String) : Bool := (r.get? name).isSome

/-- The registry with one more tool; a name that is taken is refused. -/
def register (r : Registry) (t : Tool) : Except Error Registry :=
  if r.contains t.name then .error (.duplicateName t.name) else .ok ⟨place t r.tools⟩

/-- The registry with a tool in place of another of its name, and that other. -/
def replace (r : Registry) (t : Tool) : Option Tool × Registry :=
  (r.get? t.name, ⟨place t r.tools⟩)

/-- The names. -/
def names (r : Registry) : List String := r.tools.map (·.name)

/-- How many tools there are. -/
def size (r : Registry) : Nat := r.tools.length

/-- What the model is told about the tools. -/
def definitions (r : Registry) : List Model.ToolDefinition := r.tools.map Tool.definition

/-- What the model is told about the use of the tools. -/
def prompts (r : Registry) : String :=
  "\n\n".intercalate ((r.tools.map (·.prompt)).filter (!·.isEmpty))

/-- The tool that a call reaches. -/
def reach (r : Registry) (name : String) (arguments : Json) : Except Error Tool :=
  match r.get? name with
  | none => .error (.unknownTool name)
  | some t =>
    match Tool.Schema.violation? arguments t.schema with
    | some v => .error (.invalidArguments name v.field v.reason)
    | none => .ok t

end Registry

end Parley
