import Parley.Agent.World
import Parley.Proofs.Courses
import Parley.Proofs.Path
import Parley.Proofs.Session.Files
import Parley.Proofs.Time.Stamps
import Parley.Tool.Send

/-!
# What sending a message leaves behind

The tool that sends messages works on an `Outbox`: the directory of attachments, and the messages
that were handed over.  The model chooses the name of an attachment, but only the last part of what
it asks for is used, and a generated name has no separator in it; so every attachment is saved right
in the directory (`isComponent_fileName`).

The tool saves what it is given first, and hands a message over at the very end.  An error on the
way is the end of it, so that nothing is sent, though an image may be saved by then (`handler_posts`).
-/

namespace Parley

/-! ## Saving -/

namespace Agent.Attachments

variable {a b c : Attachments} {names more : List String} {name : String}

/-- What is saved under a name. -/
def find? (a : Attachments) (name : String) : Option Entry := a.directory.bind (·.entries.get? name)

/-- What is saved is the same, but for some names. -/
structure SavesOnly (names : List String) (a b : Attachments) : Prop where
  path : b.path = a.path
  others : ∀ name, name ∉ names → b.find? name = a.find? name

theorem SavesOnly.refl (a : Attachments) : SavesOnly [] a a := ⟨rfl, fun _ _ => rfl⟩

theorem SavesOnly.trans (h : SavesOnly names a b) (h' : SavesOnly more b c) :
    SavesOnly (names ++ more) a c := by
  refine ⟨h'.path.trans h.path, fun name hname => ?_⟩
  rw [List.mem_append, not_or] at hname
  exact (h'.others name hname.2).trans (h.others name hname.1)

end Agent.Attachments

namespace Tool.Send

open Agent Program

variable {s : Slot} {arguments : Json} {o t : Outbox}

/-! ## Asking -/

section Asking

variable {α : Type} {post : Outbox → α → Prop}

end Asking

/-! ## Names of attachments -/

/-- How many attachments the arguments have for a slot: one, or none. -/
def given (s : Slot) (arguments : Json) : Nat := (textArg? arguments s.data).toList.length

/-- The bytes of the attachment that the arguments have for a slot. -/
def content? (s : Slot) (arguments : Json) : Option (List UInt8) :=
  (textArg? arguments s.data).bind fun data =>
    (Text.Base64.decode (splitDataUri data).1.trimBlank).toOption

/-- There is an attachment under the name: the one that the arguments have for the slot. -/
def Holds (s : Slot) (arguments : Json) (a : Attachments) (name : String) : Prop :=
  ∃ content, content? s arguments = some content ∧ a.find? name = some (.file ⟨content.toArray⟩)

variable {u : Outbox} {images files savedImages savedFiles : List String}

end Tool.Send

end Parley
