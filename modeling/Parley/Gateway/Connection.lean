import Parley.Gateway.Auth
import Parley.Gateway.Rpc

/-!
# A client's connection

A connection remembers one thing: whether its client has shown the token, which stays true once
it is.  Text frames are answered one by one; a frame that cannot be read is passed over.  Events
are sent on as they come.

A connection waits for two things at once, what its client sends and what is broadcast.  `serve`
answers what happens one by one, in whatever order it comes up, until the connection ends.
-/

namespace Parley.Gateway

/-- A connection. -/
structure Connection where
  isAuthenticated : Bool
  deriving DecidableEq, Repr

/-- What comes of a frame: the replies, the connection after it, and a message to handle beside. -/
structure Received where
  replies : List Json
  connection : Connection
  message : Option Inbound := none

namespace Connection

/-- A new connection. -/
def opened (auth : Auth) : Connection := ⟨!auth.isRequired⟩

/-- Check the token that a call shows. -/
def authenticate (c : Connection) (auth : Auth) (id : String) (params : Json) : Received :=
  match auth.verify (params.field "token").str? with
  | .ok () =>
    ⟨[(Reply.mk id (.ok (.obj [("ok", .bool true)]))).toJson], { c with isAuthenticated := true },
      none⟩
  | .error e => ⟨[(Reply.mk id (.error (.kind .auth e.message))).toJson], c, none⟩

/-- Check a token that is shown by itself. -/
def showToken (c : Connection) (auth : Auth) (token : Option String) : Received :=
  match auth.verify token with
  | .ok () => ⟨[(Event.authResult true none).toJson], { c with isAuthenticated := true }, none⟩
  | .error e => ⟨[(Event.authResult false (some e.message)).toJson], c, none⟩

/-- Answer a text frame. -/
def receive (c : Connection) (auth : Auth) (setup : Agent.Setup) (text : String) :
    Program Agent.interface Received :=
  match Frame.decoder.readText text with
  | none => .done ⟨[], c, none⟩
  | some (.token token) => .done (c.showToken auth token)
  | some (.call id method params) =>
    if method = "auth" then .done (c.authenticate auth id params)
    else do
      let answered ← Rpc.route setup c.isAuthenticated method params
      .done ⟨[(Reply.mk id answered.outcome).toJson], c, answered.message⟩

/-- What a connection has to do with. -/
inductive Input where
  | text (text : String)
  | ping
  | event (e : Event)
  /-- Frames that mean nothing here. -/
  | other

/-- What a connection does with an input. -/
def take (c : Connection) (auth : Auth) (setup : Agent.Setup) :
    Input → Program Agent.interface Received
  | .text text => c.receive auth setup text
  | .ping => .done ⟨[Event.pong.toJson], c, none⟩
  | .event e => .done ⟨[e.toJson], c, none⟩
  | .other => .done ⟨[], c, none⟩

/-- The greeting of a new connection. -/
def greeting : Json := (Event.info version).toJson

end Connection

/-! ## The loop -/

/-- What happens at a connection. -/
inductive Happening where
  /-- There is something to answer or to send on; `heard` says whether what is sent arrives. -/
  | input (i : Connection.Input) (heard : Bool)
  /-- Events were dropped, because the connection is slow. -/
  | lagged
  /-- The client is gone, or no more events will come. -/
  | closed

namespace Connection

/-- Whether an input is a ping. -/
def Input.isPing : Input → Bool
  | ping => true
  | _ => false

/-- What is written on an input, and whether the connection goes on: it ends when a reply or an
event does not arrive, but not for want of a pong. -/
def Input.sent (i : Input) (heard : Bool) (r : Received) : Received × Bool :=
  if heard then (r, true) else ({ r with replies := [] }, r.replies.isEmpty || i.isPing)

/-- What comes of something that happens, and whether the connection goes on. -/
def attend (c : Connection) (auth : Auth) (setup : Agent.Setup) :
    Happening → Program Agent.interface (Received × Bool)
  | .input i heard => do
    let r ← c.take auth setup i
    .done (i.sent heard r)
  | .lagged => .done (⟨[], c, none⟩, true)
  | .closed => .done (⟨[], c, none⟩, false)

/-- What comes of all that happens, up to the end of the connection. -/
def serve (c : Connection) (auth : Auth) (setup : Agent.Setup) :
    List Happening → Program Agent.interface (List Received)
  | [] => .done []
  | x :: rest => do
    let (r, goesOn) ← c.attend auth setup x
    if goesOn then do
      let more ← r.connection.serve auth setup rest
      .done (r :: more)
    else .done [r]

end Connection

end Parley.Gateway
