import Parley.Program
import Parley.Session.Directory
import Parley.Settings

/-!
# What a command line may ask for

Carrying out a command line is a program that asks its surroundings for files, for the
environment and for the clock, and tells them what to write.
-/

namespace Parley.CommandLine

/-- What a command line may ask for. -/
inductive Request where
  /-- The variables of the environment. -/
  | environment
  /-- The text of a file. -/
  | fileText (path : String)
  /-- Open a directory, which is made if there is none. -/
  | openDirectory (path : String)
  /-- Make a directory what it has become. -/
  | keepDirectory (path : String) (d : Directory)
  | clock
  | print (text : String)
  /-- Say what went wrong. -/
  | complain (text : String)
  /-- Serve clients at an address and a port until interrupted. -/
  | serve (address : String) (port : Nat)

/-- What a command line is answered with. -/
def Request.Answer : Request → Type
  | environment => String → Option String
  | fileText _ => Settings.FileText
  | openDirectory _ => Except FileError Directory
  | clock => Timestamp
  | serve .. => Except FileError Unit
  | keepDirectory .. | print _ | complain _ => Unit

/-- The surroundings of a command line. -/
def console : Interface := ⟨Request, Request.Answer⟩

/-- Ask the surroundings. -/
def ask (r : Request) : Program console r.Answer := Program.request console r

end Parley.CommandLine
