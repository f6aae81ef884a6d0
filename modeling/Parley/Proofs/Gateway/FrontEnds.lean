import Parley.Agent.World
import Parley.Proofs.Gateway.Isolation
import Parley.Proofs.Terminal.Command
import Parley.Tool.Standard

/-!
# Three ways to manage sessions

Sessions are managed by commands at the terminal, by the model through its tool, and by calls of
clients.  Each of the three trims what it is given in its own way, and puts its own requests to the
store.  What an `Errand` comes to is said once (`Errand.effect`), and each front end is shown to
come to just that: a line that is typed (`typed_line`), a call of the tool (`called_arguments`) and
a call of a client (`posted_params`).  So all three succeed or fail together, and leave one store.
-/

namespace Parley

open Agent Gateway Terminal

/-- Something that is to be done with the sessions of an identity. -/
inductive Errand where
  /-- Create a session with a title and switch it in. -/
  | create (title : String)
  | switch (name : String)
  | reset

/-- Whether something succeeded, and the state after it. -/
def judged {ε α σ : Type} (outcome : Except ε α × σ) : Bool × σ := (outcome.1.isOk, outcome.2)

/-! ## The front ends -/

/-- What comes of a line that an identity types at the terminal; `none` when it is no command. -/
def typed (now : Timestamp) (i : Identity) (line : String) (s : Store) : Option (Bool × Store) :=
  match Line.read line with
  | .chat => none
  | .refused _ => some (false, s)
  | .command c => some (judged (s.perform now (c.run i)))

/-- What comes of what a handler does. -/
def handled (w : World) (p : Program Tool.interface Tool.Result) : Bool × Store :=
  let (result, w) := p.run (fun r w => w.answerTool r) w
  (!result.isError, w.store)

/-- What comes of a call of the tool that manages sessions. -/
def called (call : Tool.Call) (arguments : Json) (w : World) : Bool × Store :=
  match Registry.standard.reach "session_manage" arguments with
  | .error _ => (false, w.store)
  | .ok t => handled w (t.handler arguments call)

/-- What comes of the handling of a client's call; `none` when more than the store is asked. -/
def served (now : Timestamp) (p : Program interface Rpc.Answered) (s : Store) :
    Option (Bool × Store) :=
  (serve p (fun _ => now) s).map fun (answered, s) => judged (answered.outcome, s)

/-- What comes of a call of a client that has shown the token. -/
def posted (setup : Setup) (now : Timestamp) (method : String) (params : Json) (s : Store) :
    Option (Bool × Store) :=
  served now (Rpc.route setup true method params) s

namespace Errand

/-- The errand as a command. -/
def line : Errand → String
  | create title => "/new " ++ title
  | switch name => "/switch " ++ name
  | reset => "/reset"

/-- The errand as arguments of the tool. -/
def arguments : Errand → Json
  | create title => .obj [("action", .str "create"), ("title", .str title)]
  | switch name => .obj [("action", .str "switch"), ("session_key", .str name)]
  | reset => .obj [("action", .str "reset")]

/-- The method that a client calls. -/
def method : Errand → String
  | create _ => "sessions.create"
  | switch _ => "sessions.switch"
  | reset => "sessions.reset"

/-- The errand as parameters of a client's call. -/
def params (chat : String) : Errand → Json
  | create title => .obj [("chat", .str chat), ("title", .str title)]
  | switch name => .obj [("chat", .str chat), ("session", .str name)]
  | reset => .obj [("chat", .str chat)]

end Errand

/-- Create a session and switch it in. -/
def Store.start (s : Store) (i : Identity) (title : Option String) (now : Timestamp) :
    Bool × Store :=
  match s.create i { title } now with
  | (.error _, s) => (false, s)
  | (.ok created, s) => judged (s.switch i created.key.text)

/-- **What an errand comes to**: whether it succeeds, and the store after it. -/
def Errand.effect (now : Timestamp) (i : Identity) (s : Store) : Errand → Bool × Store
  | create title => s.start i (some title) now
  | switch name => if name.isAllBlank then (false, s) else judged (s.switch i name)
  | reset => judged (s.reset i)

/-! ## Titles and names -/

namespace Store

variable {s : Store} {i : Identity} {now : Timestamp}

/-- A title counts as far as it is not blank. -/
theorem titleOf?_trimmed (title : String) :
    NewSession.titleOf? { title := title.trimBlank.nonempty? } =
      NewSession.titleOf? { title := some title } := by
  have htrimmed : (title.trimBlank.nonempty?.map String.trimBlank).bind String.nonempty? =
      title.trimBlank.nonempty? := by
    cases hsome : title.trimBlank.nonempty? with
    | none => rfl
    | some kept =>
      rw [Option.map_some, Option.bind_some, ← String.eq_of_nonempty? hsome,
        String.trimBlank_trimBlank, hsome, String.eq_of_nonempty? hsome]
  rw [NewSession.titleOf?, NewSession.titleOf?, htrimmed, Option.map_some, Option.bind_some]

theorem start_trimmed (title : String) :
    s.start i title.trimBlank.nonempty? now = s.start i (some title) now := by
  have hcreate : s.create i { title := title.trimBlank.nonempty? } now =
      s.create i { title := some title } now := by
    show s.createAt i (s.vacantKey i now)
      (NewSession.titleOf? { title := title.trimBlank.nonempty? }) false now = _
    rw [titleOf?_trimmed]
    rfl
  rw [start, start, hcreate]

/-- A name is looked up without the white space around it. -/
theorem switch_trimmed (name : String) :
    judged (s.switch i name.trimBlank) = judged (s.switch i name) := by
  have hlookup : s.lookup i name.trimBlank = s.lookup i name := by
    rw [lookup, lookup, String.trimBlank_trimBlank]
  unfold switch
  rw [hlookup]
  cases s.lookup i name with
  | error e => rfl
  | ok key =>
    dsimp only
    rcases s.keepOverrides (s.overrides.set i key) with ⟨_ | _, t⟩
    · rfl
    · dsimp only
      cases t.sessions.get? key <;> rfl

end Store

/-- What is left of a text when it is trimmed, if anything is. -/
theorem nonempty?_trimBlank_eq (name : String) :
    name.trimBlank.nonempty? = if name.isAllBlank then none else some name.trimBlank := by
  split_ifs with hblank
  · rw [String.trimBlank_of_isAllBlank hblank]
    rfl
  · exact String.nonempty?_trimBlank (Bool.eq_false_iff.2 hblank)

theorem isEmpty_trimBlank (name : String) : name.trimBlank.isEmpty = name.isAllBlank := by
  have hnonempty := nonempty?_trimBlank_eq name
  rw [String.nonempty?] at hnonempty
  split_ifs at hnonempty with hempty hblank hblank
  · rw [hempty, hblank]
  · rw [Bool.eq_false_iff.2 hempty, Bool.eq_false_iff.2 hblank]

/-! ## The terminal -/

section Typed

variable {s t : Store} {i : Identity} {now : Timestamp}

theorem perform_ask {α : Type} (now : Timestamp) (s : Store) (r : StoreRequest)
    {f : r.Answer → Program Store.interface α} {a : r.Answer} (h : Store.answer now r s = (a, t)) :
    s.perform now (askStore r >>= f) = t.perform now (f a) := by
  show (Store.answer now r s).2.perform now (f (Store.answer now r s).1) = _
  rw [h]

theorem perform_startNew (title : Option String) :
    judged (s.perform now (Command.startNew i title)) = s.start i title now := by
  rw [Command.startNew, Store.start]
  rcases hcreate : s.create i { title } now with ⟨_ | created, t⟩
  · rw [perform_ask now s (.create i { title }) hcreate]
    rfl
  · rw [perform_ask now s (.create i { title }) hcreate]
    dsimp only
    rcases hswitch : t.switch i created.key.text with ⟨_ | summary, u⟩
    · rw [perform_ask now t (.switch i created.key.text) hswitch]
      rfl
    · rw [perform_ask now t (.switch i created.key.text) hswitch]
      rfl

theorem perform_switch (name : String) :
    judged (s.perform now ((Command.switch name).run i)) = judged (s.switch i name) := by
  rw [Command.run]
  rcases hswitch : s.switch i name with ⟨_ | summary, t⟩
  · rw [perform_ask now s (.switch i name) hswitch]
    rfl
  · rw [perform_ask now s (.switch i name) hswitch]
    rfl

theorem perform_reset : judged (s.perform now (Command.reset.run i)) = judged (s.reset i) := by
  rw [Command.run]
  rcases hreset : s.reset i with ⟨_ | _, t⟩
  · rw [perform_ask now s (.reset i) hreset]
    rfl
  · rw [perform_ask now s (.reset i) hreset]
    rfl

/-- **At the terminal an errand comes to what it should.** -/
theorem typed_line (now : Timestamp) (i : Identity) (e : Errand) (s : Store) :
    typed now i e.line s = some (e.effect now i s) := by
  cases e with
  | create title =>
    have hread : Line.read ("/new " ++ title) = .command (.new title.trimBlank.nonempty?) :=
      read_command "new" (by decide) title
    rw [typed, Errand.line, hread, Errand.effect, ← Store.start_trimmed]
    exact congrArg some (perform_startNew _)
  | switch name =>
    have hread : Line.read ("/switch " ++ name) = Command.named "switch" name.trimBlank :=
      read_command "switch" (by decide) name
    have hnamed : Command.named "switch" name.trimBlank =
        if name.isAllBlank then .refused "usage: /switch <key>"
        else .command (.switch name.trimBlank) := by
      show (if name.trimBlank.isEmpty then Line.refused "usage: /switch <key>"
        else .command (.switch name.trimBlank)) = _
      rw [isEmpty_trimBlank]
    rw [typed, Errand.line, hread, hnamed, Errand.effect]
    split_ifs with hblank
    · rfl
    · rw [← Store.switch_trimmed]
      exact congrArg some (perform_switch _)
  | reset =>
    have hread : Line.read "/reset" = .command .reset := by decide
    rw [typed, Errand.line, hread, Errand.effect]
    exact congrArg some perform_reset

end Typed

/-! ## The tool -/

section Called

variable {w : World} {i : Identity} {t : Store} {arguments : Json}

open Tool (Sessions.tool Sessions.trimmedArg?)

theorem handled_ask (w : World) (r : Tool.Request)
    {f : r.Answer → Program Tool.interface Tool.Result} {a : r.Answer} {w' : World}
    (h : w.answerTool r = (a, w')) : handled w (Tool.ask r >>= f) = handled w' (f a) := by
  show handled (w.answerTool r).2 (f (w.answerTool r).1) = _
  rw [h]

theorem askStore_eq (w : World) (r : StoreRequest) {a : r.Answer}
    (h : Store.answer w.clock r w.store = (a, t)) :
    w.askStore r = (a, { w with store := t }) := by
  rw [World.askStore, h]

theorem handled_create {title : String}
    (hnew : Tool.Sessions.newSession arguments = { title := title.trimBlank.nonempty? })
    (hactivate : Tool.Sessions.flag arguments "activate" true) :
    handled w (Tool.Sessions.create i arguments) = w.store.start i (some title) w.clock := by
  rw [Tool.Sessions.create, hnew, ← Store.start_trimmed, Store.start]
  generalize title.trimBlank.nonempty? = title
  rcases hcreate : w.store.create i { title } w.clock with ⟨_ | created, t⟩
  · rw [handled_ask w (.createSession i { title }) (askStore_eq w (.create i { title }) hcreate)]
    rfl
  · rw [handled_ask w (.createSession i { title }) (askStore_eq w (.create i { title }) hcreate)]
    dsimp only
    rw [hactivate, if_neg (by decide)]
    rcases hswitch : t.switch i created.key.text with ⟨_ | summary, u⟩
    · rw [handled_ask { w with store := t } (.switchSession i created.key.text)
        (askStore_eq { w with store := t } (.switch i created.key.text) hswitch)]
      rfl
    · rw [handled_ask { w with store := t } (.switchSession i created.key.text)
        (askStore_eq { w with store := t } (.switch i created.key.text) hswitch)]
      rfl

theorem handled_switch {name : String}
    (hname : Sessions.trimmedArg? arguments "session_key" = name.trimBlank.nonempty?) :
    handled w (Tool.Sessions.switch i arguments) =
      if name.isAllBlank then (false, w.store) else judged (w.store.switch i name) := by
  rw [Tool.Sessions.switch, hname, nonempty?_trimBlank_eq]
  split_ifs with hblank
  · rfl
  · rw [← Store.switch_trimmed]
    generalize name.trimBlank = name
    rcases hswitch : w.store.switch i name with ⟨_ | summary, t⟩
    · rw [handled_ask w (.switchSession i name) (askStore_eq w (.switch i name) hswitch)]
      rfl
    · rw [handled_ask w (.switchSession i name) (askStore_eq w (.switch i name) hswitch)]
      rfl

theorem handled_reset : handled w (Tool.Sessions.reset i) = judged (w.store.reset i) := by
  rw [Tool.Sessions.reset]
  rcases hreset : w.store.reset i with ⟨_ | _, t⟩
  · rw [handled_ask w (.resetSession i) (askStore_eq w (.reset i) hreset)]
    rfl
  · rw [handled_ask w (.resetSession i) (askStore_eq w (.reset i) hreset)]
    rfl

theorem handler_create {call : Tool.Call} (h : (arguments.field "action").str? = some "create") :
    Tool.Sessions.handler arguments call = Tool.Sessions.create call.identity arguments := by
  rw [Tool.Sessions.handler, h]
  rfl

theorem handler_switch {call : Tool.Call} (h : (arguments.field "action").str? = some "switch") :
    Tool.Sessions.handler arguments call = Tool.Sessions.switch call.identity arguments := by
  rw [Tool.Sessions.handler, h]
  rfl

theorem reach_arguments (e : Errand) :
    Registry.standard.reach "session_manage" e.arguments = .ok Sessions.tool := by
  cases e <;> rfl

/-- The arguments of an errand give a title and nothing else about a session to create. -/
theorem newSession_arguments (title : String) :
    Tool.Sessions.newSession (Errand.create title).arguments =
      { title := title.trimBlank.nonempty? } := by
  simp [Tool.Sessions.newSession, Sessions.trimmedArg?, Tool.Sessions.flag, Errand.arguments,
    Json.field, Json.get?, Json.lookup, Json.str?, Json.bool?]

theorem trimmedArg?_arguments (name : String) :
    Sessions.trimmedArg? (Errand.switch name).arguments "session_key" =
      name.trimBlank.nonempty? := by
  simp [Sessions.trimmedArg?, Errand.arguments, Json.field, Json.get?, Json.lookup, Json.str?]

/-- **Through the tool an errand comes to what it should.** -/
theorem called_arguments (call : Tool.Call) (e : Errand) (w : World) :
    called call e.arguments w = e.effect w.clock call.identity w.store := by
  have hreached : called call e.arguments w =
      handled w (Tool.Sessions.handler e.arguments call) := by
    rw [called, reach_arguments]
    rfl
  rw [hreached]
  cases e with
  | create title =>
    rw [handler_create rfl]
    exact handled_create (newSession_arguments title) rfl
  | switch name =>
    rw [handler_switch rfl]
    exact handled_switch (trimmedArg?_arguments name)
  | reset => exact handled_reset

end Called

/-! ## Clients -/

section Posted

variable {setup : Setup} {s t : Store} {i : Identity} {now : Timestamp} {params : Json}

theorem served_ask (now : Timestamp) (s : Store) (r : StoreRequest)
    {f : (Agent.Request.store r).Answer → Program interface Rpc.Answered} {a : r.Answer}
    (h : Store.answer now r s = (a, t)) :
    served now (ask (.store r) >>= f) s = served now (f a) t := by
  have hserve : serve (ask (.store r) >>= f) (fun _ => now) s = serve (f a) (fun _ => now) t :=
    serve_ask h
  rw [served, served, hserve]

/-- A text that has to be there is taken as it is, unless it is blank. -/
theorem required_eq {field text : String} (h : (params.field field).str? = some text) :
    Rpc.required params field = if text.isAllBlank then
      .error (.kind .invalidParams ("Missing required param: " ++ field)) else .ok text := by
  rw [Rpc.required, h]
  cases hblank : text.isAllBlank <;> simp [Option.filter, hblank]

theorem served_switchTo (name : String) :
    served now (Rpc.switchTo i name) s = some (judged (s.switch i name)) := by
  rw [Rpc.switchTo]
  rcases hswitch : s.switch i name with ⟨_ | summary, t⟩
  · rw [served_ask now s (.switch i name) hswitch]
    rfl
  · rw [served_ask now s (.switch i name) hswitch]
    rfl

theorem served_create {title : String}
    (hnew : Rpc.newSession params = { title := title.trimBlank.nonempty? })
    (hactivate : (params.field "activate").bool?.getD true) :
    served now (Rpc.sessionsCreate i params) s = some (s.start i (some title) now) := by
  rw [Rpc.sessionsCreate, hnew, ← Store.start_trimmed, Store.start]
  generalize title.trimBlank.nonempty? = title
  rcases hcreate : s.create i { title } now with ⟨_ | created, t⟩
  · rw [served_ask now s (.create i { title }) hcreate]
    rfl
  · rw [served_ask now s (.create i { title }) hcreate]
    dsimp only
    rw [if_pos hactivate, served_switchTo]

theorem served_switch {name : String} (hname : (params.field "session").str? = some name) :
    served now (Rpc.sessionsSwitch i params) s =
      some (if name.isAllBlank then (false, s) else judged (s.switch i name)) := by
  rw [Rpc.sessionsSwitch, required_eq hname]
  split_ifs with hblank
  · rfl
  · exact served_switchTo name

theorem served_reset : served now (Rpc.sessionsReset i params) s = some (judged (s.reset i)) := by
  rw [Rpc.sessionsReset]
  rcases hreset : s.reset i with ⟨_ | _, t⟩
  · rw [served_ask now s (.reset i) hreset]
    rfl
  · rw [served_ask now s (.reset i) hreset]
    rfl

/-- The parameters of an errand give a title and nothing else about a session to create. -/
theorem newSession_params (chat title : String) :
    Rpc.newSession ((Errand.create title).params chat) =
      { title := title.trimBlank.nonempty? } := by
  simp [Rpc.newSession, Rpc.optional, Errand.params, Json.field, Json.get?, Json.lookup, Json.str?,
    Json.bool?]

theorem identity_params {chat : String} (hchat : chat.isAllBlank = false) (e : Errand) :
    Rpc.identity (e.params chat) = .ok ⟨Rpc.channel, chat⟩ := by
  have hfield : ((e.params chat).field "chat").str? = some chat := by
    cases e <;> rfl
  rw [Rpc.identity, required_eq hfield, if_neg (Bool.eq_false_iff.1 hchat)]
  rfl

/-- **For a client an errand comes to what it should**, in a chat whose name is not blank. -/
theorem posted_params {chat : String} (hchat : chat.isAllBlank = false) (setup : Setup)
    (now : Timestamp) (e : Errand) (s : Store) :
    posted setup now e.method (e.params chat) s = some (e.effect now ⟨Rpc.channel, chat⟩ s) := by
  have hidentity := identity_params hchat e
  cases e with
  | create title =>
    show served now (Rpc.forChat Rpc.sessionsCreate _) s = _
    rw [Rpc.forChat, hidentity]
    exact served_create (newSession_params chat title) rfl
  | switch name =>
    show served now (Rpc.forChat Rpc.sessionsSwitch _) s = _
    rw [Rpc.forChat, hidentity]
    exact served_switch rfl
  | reset =>
    show served now (Rpc.forChat Rpc.sessionsReset _) s = _
    rw [Rpc.forChat, hidentity]
    exact served_reset

end Posted

/-- **The three front ends manage sessions alike**: in whatever state the store is, at whatever
instant, a command that is typed, a call of the tool and a call of a client come to the same for
the same chat, be it that they succeed or that they fail, and leave the same store. -/
theorem front_ends_alike {chat : String} (hchat : chat.isAllBlank = false) (setup : Setup)
    (session : SessionKey) (canSend : Bool) (e : Errand) (w : World) :
    typed w.clock ⟨Rpc.channel, chat⟩ e.line w.store =
        some (called ⟨⟨Rpc.channel, chat⟩, session, canSend⟩ e.arguments w) ∧
      posted setup w.clock e.method (e.params chat) w.store =
        some (called ⟨⟨Rpc.channel, chat⟩, session, canSend⟩ e.arguments w) := by
  rw [called_arguments, typed_line, posted_params hchat]
  exact ⟨rfl, rfl⟩

/-- A name with white space around it and a capital letter, in each of the three ways. -/
theorem front_ends_alike_of_padded_name :
    let notes : SessionKey := ⟨"ws:laptop:notes"⟩
    let now : Timestamp := ⟨1709294400, 0⟩
    let s : Store :=
      { sessions := Table.empty.set notes (.new notes ⟨Rpc.channel, "laptop"⟩ none now) }
    let w : World := { clock := now, store := s }
    let call : Tool.Call := { identity := ⟨Rpc.channel, "laptop"⟩, session := ⟨"ws:laptop"⟩ }
    ("laptop".isAllBlank = false) ∧
      typed now ⟨Rpc.channel, "laptop"⟩ "/switch  Notes " s =
        some (called call (Errand.switch " Notes ").arguments w) ∧
      posted {} now "sessions.switch" ((Errand.switch " Notes ").params "laptop") s =
        some (called call (Errand.switch " Notes ").arguments w) ∧
      (called call (Errand.switch " Notes ").arguments w).1 = true := by
  intro notes now s w call
  have hchat : "laptop".isAllBlank = false := by decide
  obtain ⟨htyped, hposted⟩ :=
    front_ends_alike hchat {} ⟨"ws:laptop"⟩ true (.switch " Notes ") w
  exact ⟨hchat, htyped, hposted, by decide +kernel⟩

end Parley
