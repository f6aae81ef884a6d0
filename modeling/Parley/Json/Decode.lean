import Parley.Json.Tree
import Parley.Json.Printer

/-!
# Typed reading of JSON

Turns, settings, requests and messages have fixed fields, and are read straight from the parse
tree of a text.  The rules are the same for all of them.

* **Records** (`record?`).  A record is an object; fields nobody declared are ignored, a declared
  field may be given once only.  It may also be an array of the declared fields in their order,
  from whose end fields with a default may be left out.
* **Fields.**  `Record.required` must be there, `Record.optional` may be absent from an object or
  be `null`, and `Record.orElse` has a default, which `null` does not stand for.
* **Enumerations** (`oneOf`) are written as their name, or as an object whose only field has that
  name and holds `null`.
* **Tagged unions** (`tagged`) are records with one more field that names the alternative; as an
  array they start with that name.

## Two ways of asking

A value is asked for while its text streams by, or after it was read whole.  A streamed value may
open only so many more containers (`Access.streamed`).  The alternatives of a union are tried on
a value read whole (`Access.buffered`): it was checked when it was read, every string and number
of it, also those no alternative asks for; and there an alternative may be named by its position.
-/

namespace Parley.Json

/-- How a value is asked for. -/
inductive Access where
  /-- While the text streams by; `depth` more containers may be opened. -/
  | streamed (depth : Nat)
  /-- After the value was read whole. -/
  | buffered
  deriving DecidableEq

/-- The access to what a container holds. -/
def Access.enter : Access → Option Access
  | .streamed 0 => none
  | .streamed (depth + 1) => some (.streamed depth)
  | .buffered => some .buffered

/-- Whether a tree can be read whole. -/
def Access.admits : Access → Tree → Bool
  | .streamed depth, t => t.height ≤ depth && t.value?.isSome
  | .buffered, _ => true

/-- A reader of typed values. -/
abbrev Decoder (α : Type) := Access → Tree → Option α

namespace Decoder

/-- A value of any shape. -/
def value : Decoder Json := fun a t =>
  if a.admits t then t.value? else none

/-- A text. -/
def text : Decoder String
  | _, .string s => s
  | _, _ => none

/-- A truth value. -/
def bool : Decoder Bool
  | _, .bool b => some b
  | _, _ => none

/-- A whole number from zero to `greatest`, written as an integer. -/
def natUpTo (greatest : Nat) : Decoder Nat
  | _, .number l =>
    match l.value? with
    | some (.int i) => if 0 ≤ i ∧ i ≤ greatest then some i.toNat else none
    | _ => none
  | _, _ => none

/-- Words of 16, 32 and 64 bits. -/
def word16 : Decoder Nat := natUpTo (UInt16.size - 1)
@[inherit_doc word16] def word32 : Decoder Nat := natUpTo (UInt32.size - 1)
@[inherit_doc word16] def word64 : Decoder Nat := natUpTo (UInt64.size - 1)

/-- What a reader finds, if `f` accepts it. -/
def andThen {α β : Type} (d : Decoder α) (f : α → Option β) : Decoder β := fun a t =>
  (d a t).bind f

/-- What a reader finds, or `null`. -/
def orNull {α : Type} (d : Decoder α) : Decoder (Option α)
  | _, .null => some none
  | a, t => (d a t).map some

/-- An array of what a reader finds. -/
def list {α : Type} (d : Decoder α) : Decoder (List α)
  | a, .array items => do
    let a ← a.enter
    items.mapM (d a)
  | _, _ => none

/-- An object whose fields all hold what a reader finds, in the order written. -/
def table {α : Type} (d : Decoder α) : Decoder (List (String × α))
  | a, .object fields => do
    let a ← a.enter
    fields.mapM fun (name, t) => do
      let name ← name
      let v ← d a t
      some (name, v)
  | _, _ => none

/-- One of some named values. -/
def oneOf {α : Type} (names : List (String × α)) : Decoder α
  | _, .string (some s) => names.lookup s
  | a, .object [(some s, t)] =>
    match a.enter, a, t with
    | some _, _, .null => names.lookup s
    | some _, .buffered, .object [] => names.lookup s
    | _, _, _ => none
  | _, _ => none

end Decoder

/-! ## Records -/

/-- The fields found for a record: `positional` when it was written as an array. -/
structure Record where
  found : List (String × Tree)
  positional : Bool
  access : Access

/-- The fields of an object that are declared, in the order written; `none` when a name is no
text or a declared one is given twice. -/
def declaredFields (names : List String) :
    List (Option String × Tree) → Option (List (String × Tree))
  | [] => some []
  | (none, _) :: _ => none
  | (some k, t) :: rest =>
    match declaredFields names rest with
    | none => none
    | some more =>
      if names.contains k then
        if more.any (·.1 == k) then none else some ((k, t) :: more)
      else some more

/-- The fields of a record with the declared names. -/
def record? (names : List String) : Decoder Record
  | a, .object fields => do
    let a ← a.enter
    let found ← declaredFields names fields
    some ⟨found, false, a⟩
  | a, .array items => do
    let a ← a.enter
    if items.length ≤ names.length then some ⟨names.zip items, true, a⟩ else none
  | _, _ => none

namespace Record

/-- A field that must be there. -/
def required {α : Type} (r : Record) (name : String) (d : Decoder α) : Option α := do
  d r.access (← r.found.lookup name)

/-- A field that may be `null`, or absent from an object. -/
def optional {α : Type} (r : Record) (name : String) (d : Decoder α) : Option (Option α) :=
  match r.found.lookup name with
  | some t => d.orNull r.access t
  | none => if r.positional then none else some none

/-- A field with a default. -/
def orElse {α : Type} (r : Record) (name : String) (fallback : α) (d : Decoder α) : Option α :=
  match r.found.lookup name with
  | some t => d r.access t
  | none => some fallback

end Record

/-! ## Tagged unions -/

/-- The tag and the remaining content of a tagged value. -/
def untag? (key : String) (a : Access) : Tree → Option (Tree × Tree)
  | .object fields =>
    let (tags, others) := fields.partition (·.1 == some key)
    match tags with
    | [(_, tag)] =>
      if others.all (fun f => f.1.isSome && a.admits f.2) then some (tag, .object others) else none
    | _ => none
  | .array (tag :: rest) => if rest.all a.admits then some (tag, .array rest) else none
  | _ => none

/-- The alternative that a tag names: by its name, or by its position in a value read whole. -/
def alternative? {α : Type} (alternatives : List (String × Decoder α)) (a : Access) :
    Tree → Option (Decoder α)
  | .string (some s) => alternatives.lookup s
  | .number l =>
    match a, l.value? with
    | .buffered, some (.int i) =>
      if 0 ≤ i then (alternatives[i.toNat]?).map (·.2) else none
    | _, _ => none
  | _ => none

namespace Decoder

/-- A value whose field `key` names one of some alternatives. -/
def tagged {α : Type} (key : String) (alternatives : List (String × Decoder α)) : Decoder α :=
  fun a t => do
    let inside ← a.enter
    let (tag, content) ← untag? key inside t
    let d ← alternative? alternatives a tag
    d .buffered content

/-- As `tagged`, where every other name stands for `rest`. -/
def taggedOr {α : Type} (key : String) (alternatives : List (String × Decoder α)) (rest : α) :
    Decoder α :=
  fun a t => do
    let inside ← a.enter
    let (tag, content) ← untag? key inside t
    match tag with
    | .string (some s) =>
      match alternatives.lookup s, content with
      | some d, _ => d .buffered content
      | none, .array (_ :: _) => none
      | none, _ => some rest
    | _ => none

/-- A value read whole and then tried on each reader in turn. -/
def firstOf {α : Type} (readers : List (Decoder α)) : Decoder α := fun a t =>
  if a.admits t then readers.findSome? fun d => d .buffered t else none

/-- A reader that takes objects only. -/
def objectOnly {α : Type} (d : Decoder α) : Decoder α
  | a, .object fields => d a (.object fields)
  | _, _ => none

/-- What a reader finds in a text. -/
def readText {α : Type} (d : Decoder α) (text : String) : Option α := do
  d (.streamed maxNesting) (← Tree.read? text)

/-- What a reader finds in a value. -/
def readJson {α : Type} (d : Decoder α) (j : Json) : Option α :=
  d.readText (String.ofList j.render)

end Decoder

end Parley.Json
