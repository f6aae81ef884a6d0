import Parley.CommandLine.Run
import Std.Time.DateTime.Timestamp

/-!
# The program

The outermost layer: it answers what a command line asks for with the files, the clock and the
terminal of the system, and feeds a chat with lines.  The program has no network layer, so the
gateway is not served and the model service is out of reach.
-/

namespace Parley.Main

open CommandLine (Opened Request console)

/-- What was last known of the directories that are kept. -/
abbrev Known := IO.Ref (Table String Directory)

/-- The time of the system. -/
def now : IO Timestamp := do
  let nanos : Int := (← Std.Time.Timestamp.now).toNanosecondsSinceUnixEpoch.val
  return ⟨nanos.fdiv 1000000000, (nanos.fmod 1000000000).toNat⟩

/-- Why the system refused something. -/
def cause : IO.Error → FileError
  | .noFileOrDirectory .. => .notFound
  | .inappropriateType .. => .isDirectory
  | .alreadyExists .. => .exists
  | _ => .denied

/-- Read a text file. -/
def fileText (path : String) : IO Settings.FileText := do
  try
    return .text (← IO.FS.readFile path)
  catch e =>
    return match cause e with
      | .notFound => .missing
      | other => .unreadable other

/-- Read a directory, which is made if there is none. -/
def directory (path : String) : IO Directory := do
  IO.FS.createDirAll path
  let mut d : Directory := {}
  for e in ← (← IO.FS.realPath path).readDir do
    let entry ← if ← e.path.isDir then pure Entry.directory
      else pure (Entry.file (← IO.FS.readBinFile e.path))
    d := { d with entries := d.entries.set e.fileName entry }
  return d

/-- Write what is new in a directory, and remove what is gone. -/
def update (path : String) (before after : Directory) : IO Unit := do
  let write (e : String × Entry) : IO Unit :=
    match e.2, before.entries.get? e.1 with
    | .file content, some (.file old) =>
      if content == old then return else IO.FS.writeBinFile (Path.join path e.1) content
    | .file content, _ => IO.FS.writeBinFile (Path.join path e.1) content
    | .directory, _ => return
  let remove (name : String) : IO Unit :=
    if after.entries.contains name then return else IO.FS.removeFile (Path.join path name)
  after.entries.entries.forM write
  before.entries.keys.forM remove

/-- Make a directory what it has become. -/
def keep (known : Known) (path : String) (d : Directory) : IO Unit := do
  update path (((← known.get).get? path).getD {}) d
  known.modify (·.set path d)

/-- Answer a command line. -/
def answer (known : Known) : (r : Request) → IO r.Answer
  | .environment => do
    let values ← Settings.variableNames.mapM fun name => do return (name, ← IO.getEnv name)
    return fun name => (values.lookup name).join
  | .fileText path => fileText path
  | .openDirectory path => do
    try
      let d ← directory path
      known.modify (·.set path d)
      return .ok d
    catch e => return .error (cause e)
  | .keepDirectory path d => keep known path d
  | .clock => now
  | .print text => IO.print text
  | .complain text => IO.eprint text
  | .serve .. => return .error .denied

/-- Carry out what a command line comes to. -/
def perform {α : Type} (known : Known) : Program console α → IO α
  | .done a => return a
  | .ask r next => do perform known (next (← answer known r))

/-- Chat until the user leaves. -/
partial def converse (known : Known) (o : Opened) : IO Unit := do
  IO.print Terminal.Chat.prompt
  (← IO.getStdout).flush
  let line ← (← IO.getStdin).getLine
  if line.isEmpty then return
  let chat := { o.chat with world := { o.chat.world with clock := ← now } }
  match chat.take line with
  | none => return
  | some (output, chat) =>
    IO.print output
    if let some path := o.directory then
      if let some d := chat.world.store.disk then keep known path d
    converse known { o with chat }

end Parley.Main

open Parley in
/-- Carry out the command line that the program was started with. -/
def main (words : List String) : IO UInt32 := do
  let known ← IO.mkRef Table.empty
  match ← Main.perform known (CommandLine.run words) with
  | .exit code => return code.toUInt32
  | .chat o =>
    Main.converse known o
    return 0
