/-!
# The words of a command line

A command line is a list of words: options, then the name of a command, then options again, which
may be the command's own.  Reading one has two steps.

1. **Words.**  `scan` takes options off the front, each with its value, up to the first word that
   is no option.  A value stands in the same word, `--model=m`, `-mm` or `-m=m`, or is the next
   word, which then must not look like an option.  No option may be given twice.
2. **Meaning.**  `Options.read` scans before the command and after it; what is given after it wins.

A word that asks for help stops the reading where it stands.
-/

namespace Parley.CommandLine

/-- How logs are written. -/
inductive LogFormat where
  | text
  | json
  deriving DecidableEq, Repr

/-- What the program is to do. -/
inductive Command where
  | chat (session : Option String)
  | gateway (port : Option Nat) (bind token : Option String)
  | sessions (identity : String)
  | config
  | version
  deriving DecidableEq, Repr

/-- What a command line says. -/
structure Options where
  config : Option String
  model : Option String
  workspace : Option String
  logFormat : LogFormat
  logFile : Option String
  command : Command
  deriving DecidableEq, Repr

/-- Why a command line is not carried out. -/
inductive Stop where
  | help
  | usage (reason : String)
  deriving DecidableEq, Repr

/-! ## Words -/

/-- An option with a value. -/
structure Flag where
  name : String
  letter : Option Char := none
  /-- Whether a value is one that the option takes. -/
  accepts : String → Bool := fun _ => true

/-- Options that were given, by name. -/
abbrev Given := List (String × String)

/-- A word taken apart. -/
inductive Word where
  /-- The end of options. -/
  | endOfOptions
  | long (name : String) (value : Option String)
  | short (letter : Char) (value : Option String)
  | plain (word : String)

/-- A word taken apart.  A lone hyphen is no option. -/
def Word.of (word : String) : Word :=
  match word.toList with
  | ['-', '-'] => .endOfOptions
  | '-' :: '-' :: rest =>
    match rest.span (· ≠ '=') with
    | (name, '=' :: value) => .long (String.ofList name) (some (String.ofList value))
    | (name, _) => .long (String.ofList name) none
  | '-' :: letter :: rest =>
    .short letter <|
      match rest with
      | [] => none
      | '=' :: value => some (String.ofList value)
      | value => some (String.ofList value)
  | _ => .plain word

/-- A value that stands by itself after its option, and the words after it. -/
def valueAfter (flag : Flag) : List String → Except Stop (String × List String)
  | [] => .error (.usage ("a value is required for --" ++ flag.name))
  | word :: rest =>
    match Word.of word with
    | .plain value => .ok (value, rest)
    | _ => .error (.usage ("a value is required for --" ++ flag.name))

/-- Take note of an option and its value. -/
def note (given : Given) (flag : Flag) (value : String) : Except Stop Given :=
  if (given.lookup flag.name).isSome then
    .error (.usage ("--" ++ flag.name ++ " cannot be used multiple times"))
  else if flag.accepts value then .ok (given ++ [(flag.name, value)])
  else .error (.usage ("invalid value for --" ++ flag.name))

/-- The words after an option and its value. -/
def remaining (value : Option String) (rest : List String) : List String :=
  match value with
  | some _ => rest
  | none => rest.tail

/-- The value of an option. -/
def valueOf (flag : Flag) (value : Option String) (rest : List String) : Except Stop String :=
  match value with
  | some value => .ok value
  | none => (valueAfter flag rest).map (·.1)

/-- Take options off the front. -/
def scan (flags : List Flag) (given : Given) : List String → Except Stop (Given × List String)
  | [] => .ok (given, [])
  | word :: rest =>
    let option (flag? : Option Flag) (value : Option String) : Except Stop (Given × List String) :=
      match flag? with
      | none => .error (.usage ("unexpected argument '" ++ word ++ "'"))
      | some flag => do
        let given ← note given flag (← valueOf flag value rest)
        scan flags given (remaining value rest)
    match Word.of word with
    | .endOfOptions =>
      match rest with
      | [] => .ok (given, [])
      | extra :: _ => .error (.usage ("unexpected argument '" ++ extra ++ "'"))
    | .long "help" none | .short 'h' _ => .error .help
    | .long name value => option (flags.find? (·.name = name)) value
    | .short letter value => option (flags.find? (·.letter = some letter)) value
    | .plain _ => .ok (given, word :: rest)
  termination_by words => words.length
  decreasing_by
    unfold remaining
    split
    · exact Nat.lt_succ_self _
    · exact Nat.lt_succ_of_le (by rw [List.length_tail]; exact Nat.sub_le ..)

/-! ## Meaning -/

/-- A number below 65536, with or without a sign. -/
def portOf? (value : String) : Option Nat :=
  let digits (cs : List Char) : Option Nat :=
    if cs ≠ [] ∧ cs.all Char.isDigit then
      some (cs.foldl (fun n c => 10 * n + (c.toNat - '0'.toNat)) 0)
    else none
  match value.toList with
  | '+' :: cs => (digits cs).filter (· < 65536)
  | '-' :: cs => (digits cs).filter (· = 0)
  | cs => (digits cs).filter (· < 65536)

/-- The log format of a name. -/
def LogFormat.ofName? : String → Option LogFormat
  | "text" => some .text
  | "json" => some .json
  | _ => none

/-- The options of every command. -/
def generalFlags : List Flag :=
  [⟨"config", some 'c', fun v => !v.isEmpty⟩, ⟨"model", some 'm', fun _ => true⟩,
    ⟨"workspace", some 'w', fun v => !v.isEmpty⟩,
    ⟨"log-format", none, fun v => (LogFormat.ofName? v).isSome⟩,
    ⟨"log-file", none, fun v => !v.isEmpty⟩]

/-- The options that a command has of its own; `none` when there is no such command. -/
def ownFlags? : String → Option (List Flag)
  | "chat" => some [⟨"session", some 's', fun _ => true⟩]
  | "gateway" =>
    some [⟨"port", some 'p', fun v => (portOf? v).isSome⟩, ⟨"bind", some 'b', fun _ => true⟩,
      ⟨"token", some 't', fun _ => true⟩]
  | "sessions" => some [⟨"identity", some 'i', fun _ => true⟩]
  | "config" | "version" => some []
  | _ => none

/-- The command of a name with its options. -/
def Command.of (name : String) (given : Given) : Command :=
  match name with
  | "gateway" =>
    .gateway ((given.lookup "port").bind portOf?) (given.lookup "bind") (given.lookup "token")
  | "sessions" => .sessions ((given.lookup "identity").getD "cli:local")
  | "config" => .config
  | "version" => .version
  | _ => .chat (given.lookup "session")

/-- What is said by the options before the command and those after it. -/
def Options.of (before after : Given) (command : Command) : Options :=
  let find (name : String) : Option String := (after.lookup name).or (before.lookup name)
  { config := find "config"
    model := find "model"
    workspace := find "workspace"
    logFormat := ((find "log-format").bind LogFormat.ofName?).getD .text
    logFile := find "log-file"
    command }

/-- Ask for help on a command. -/
def helpOn : List String → Stop
  | [] => .help
  | [name] =>
    if name = "help" ∨ (ownFlags? name).isSome then .help
    else .usage ("unrecognized subcommand '" ++ name ++ "'")
  | _ => .usage "unrecognized subcommand"

/-- Read the words after the program's name.  Without a command the user wants to chat. -/
def Options.read (words : List String) : Except Stop Options := do
  match ← scan generalFlags [] words with
  | (before, []) => .ok (.of before [] (.chat none))
  | (before, name :: rest) =>
    if name = "help" then .error (helpOn rest)
    else
      match ownFlags? name with
      | none => .error (.usage ("unrecognized subcommand '" ++ name ++ "'"))
      | some own =>
        match ← scan (generalFlags ++ own) [] rest with
        | (after, []) => .ok (.of before after (.of name after))
        | (_, extra :: _) => .error (.usage ("unexpected argument '" ++ extra ++ "'"))

end Parley.CommandLine
