import Parley.Error
import Parley.Session.File

/-!
# The directory of the session files

A directory maps names to files and to directories below it.  An action on it may be refused: for
what stands under the name already, for the length of a name, or for a reason of the system's own,
which `refusal` stands for.  A refused action changes nothing.

A file is replaced by writing its draft and renaming that, so nobody sees half of it; when the
renaming is refused the draft stays behind.
-/

namespace Parley

/-- What stands under a name. -/
inductive Entry where
  | file (content : ByteArray)
  | directory

/-- What may be asked of a directory. -/
inductive FileAction where
  | create (name : String)
  | rename (source target : String)
  | append (name : String)
  | remove (name : String)
  deriving DecidableEq, Repr

/-- A directory. -/
structure Directory where
  entries : Table String Entry := .empty
  /-- What the system refuses of its own accord. -/
  refusal : FileAction → Option FileError := fun _ => none

namespace Directory

/-- The greatest number of bytes in a name. -/
def longestName : Nat := 255

/-- Whether the name is too long for any entry. -/
def tooLong (name : String) : Bool := longestName < name.utf8ByteSize

/-- What stands under a name; `none` when nothing does.  No entry has a name that is too long or
holds the character zero. -/
def find? (d : Directory) (name : String) : Except FileError (Option Entry) :=
  if name.toList.contains '\x00' then .error .invalidName
  else if tooLong name then .error .nameTooLong
  else .ok (d.entries.get? name)

/-- A directory of text files. -/
def ofTexts (files : List (String × String)) : Directory :=
  files.foldl (fun d (name, text) =>
    { d with entries := d.entries.set name (.file text.toUTF8) }) {}

/-- The directory with a file under a name. -/
def put (d : Directory) (name : String) (content : ByteArray) : Directory :=
  { d with entries := d.entries.set name (.file content) }

/-! ## Actions -/

/-- A file with the given content, new or in place of another. -/
def create (d : Directory) (name : String) (content : ByteArray) : Except FileError Directory :=
  match d.refusal (.create name), d.find? name with
  | some e, _ => .error e
  | none, .error e => .error e
  | none, .ok (some .directory) => .error .isDirectory
  | none, .ok _ => .ok (d.put name content)

/-- A file under another name, in place of the file there. -/
def rename (d : Directory) (source target : String) : Except FileError Directory :=
  match d.refusal (.rename source target), d.find? source, d.find? target with
  | some e, _, _ => .error e
  | none, .error e, _ | none, _, .error e => .error e
  | none, .ok none, _ => .error .notFound
  | none, _, .ok (some .directory) => .error .isDirectory
  | none, .ok (some .directory), _ => .error .denied
  | none, .ok (some (.file content)), .ok _ =>
    .ok { d with entries := ((d.put target content).entries.erase source) }

/-- More content at the end of a file. -/
def append (d : Directory) (name : String) (content : ByteArray) : Except FileError Directory :=
  match d.refusal (.append name), d.find? name with
  | some e, _ => .error e
  | none, .error e => .error e
  | none, .ok none => .error .notFound
  | none, .ok (some .directory) => .error .isDirectory
  | none, .ok (some (.file before)) => .ok (d.put name (before ++ content))

/-- The directory without a file. -/
def remove (d : Directory) (name : String) : Except FileError Directory :=
  match d.refusal (.remove name), d.find? name with
  | some e, _ => .error e
  | none, .error e => .error e
  | none, .ok none => .error .notFound
  | none, .ok (some .directory) => .error .isDirectory
  | none, .ok (some (.file _)) => .ok { d with entries := d.entries.erase name }

/-- The text of a file; `none` when it is no file, or no text. -/
def text? (d : Directory) (name : String) : Option String :=
  match d.entries.get? name with
  | some (.file content) => String.fromUTF8? content
  | _ => none

/-- A file replaced as a whole, and the directory after that, whether it succeeded or not. -/
def replace (d : Directory) (name : String) (content : String) :
    Except FileError Unit × Directory :=
  match d.create (SessionFile.draftName name) content.toUTF8 with
  | .error e => (.error e, d)
  | .ok drafted =>
    match drafted.rename (SessionFile.draftName name) name with
    | .error e => (.error e, drafted)
    | .ok done => (.ok (), done)

/-! ## Sessions -/

/-- Write the file of a session. -/
def writeSession (d : Directory) (s : Session) : Except FileError Unit × Directory :=
  d.replace (SessionFile.fileName s.key) (SessionFile.text s)

/-- Add the last turn of a session to its file; the whole file is written when it is gone. -/
def recordTurn (d : Directory) (s : Session) (t : Turn) : Except FileError Unit × Directory :=
  match d.append (SessionFile.fileName s.key) (SessionFile.line t.toJson).toUTF8 with
  | .ok done => (.ok (), done)
  | .error .notFound => d.writeSession s
  | .error e => (.error e, d)

/-- Remove the file of a key; it is no fault when there is none. -/
def removeSession (d : Directory) (key : SessionKey) : Except FileError Directory :=
  match d.remove (SessionFile.fileName key) with
  | .error .notFound => .ok d
  | result => result

/-- Write the overrides. -/
def writeOverrides (d : Directory) (overrides : Table Identity SessionKey) :
    Except FileError Unit × Directory :=
  d.replace SessionFile.overridesName (SessionFile.overridesText overrides)

/-- The names of the session files, in order. -/
def sessionFiles (d : Directory) : List String :=
  (d.entries.keys.filter SessionFile.isSessionFile).mergeSort fun a b => a ≤ b

/-- The sessions whose files can be read. -/
def sessions (d : Directory) : List Session :=
  d.sessionFiles.filterMap fun name => (d.text? name).bind SessionFile.read?

/-- The overrides that can be read. -/
def overrides (d : Directory) : Table Identity SessionKey :=
  ((d.text? SessionFile.overridesName).map SessionFile.readOverrides).getD .empty

end Directory

end Parley
