import Parley.Session.Directory
import Parley.Text.Slug

/-!
# The session store

The store holds sessions by key and, for each identity, at most one *override*: the session that
is switched in.  Without an override an identity talks to its default session, which is created
when it is first needed.

Every operation answers with a result and with the store after it.  An operation that fails has
changed nothing but, at most, drafts in the directory: what is to be kept in memory is kept only
after the directory took it.

Sessions are named by users.  A name with a colon is a whole key, any other is made a slug below
the identity's own name.  Looking a session up (`lookup`) and making one (`requestedKey`) each read
a name by that rule.
-/

namespace Parley

/-- The sessions, which of them are switched in, and where they are kept. -/
structure Store where
  sessions : Table SessionKey Session := .empty
  overrides : Table Identity SessionKey := .empty
  /-- The directory, unless sessions are kept in memory only. -/
  disk : Option Directory := none

namespace Store

/-! ## Opening -/

/-- A store that keeps its sessions in memory. -/
def inMemory : Store := {}

/-- The overrides that name a session which is there and is the identity's own. -/
def sound (sessions : Table SessionKey Session) (overrides : Table Identity SessionKey) :
    Table Identity SessionKey :=
  ⟨overrides.entries.filter fun (i, key) => i.owns key && sessions.contains key⟩

/-- The sessions of a directory by key. -/
def loadSessions (d : Directory) : Table SessionKey Session :=
  d.sessions.foldl (fun table s => table.set s.key s) .empty

/-- The store that a directory holds.  Overrides that are not sound are dropped for good. -/
def openAt (d : Directory) : Except Error Store × Directory :=
  let sessions := loadSessions d
  let overrides := sound sessions d.overrides
  if overrides.size = d.overrides.size then (.ok ⟨sessions, overrides, some d⟩, d)
  else
    match d.writeOverrides overrides with
    | (.ok (), d) => (.ok ⟨sessions, overrides, some d⟩, d)
    | (.error e, d) => (.error (.file e), d)

/-! ## Looking -/

/-- How many sessions there are. -/
def size (s : Store) : Nat := s.sessions.size

/-- A session, and whether it is switched in for its identity. -/
def get? (s : Store) (key : SessionKey) : Option (Session × Bool) :=
  (s.sessions.get? key).map fun session =>
    (session, decide (s.overrides.get? session.identity = some key))

/-- The transcript of a session. -/
def transcript (s : Store) (key : SessionKey) : Except Error (List Turn) :=
  match s.sessions.get? key with
  | some session => .ok session.transcript
  | none => .error (.sessionNotFound key.text)

/-- The session that is switched in. -/
def current (s : Store) (i : Identity) : Option Summary := do
  let key ← s.overrides.get? i
  let session ← s.sessions.get? key
  some (session.summary true)

/-- Whether a summary is listed before another: latest first, and by key. -/
def before (a b : Summary) : Bool :=
  if a.updatedAt = b.updatedAt then a.key.text ≤ b.key.text else b.updatedAt.le a.updatedAt

/-- The sessions of an identity, latest first. -/
def list (s : Store) (i : Identity) : List Summary :=
  let active := s.overrides.get? i
  let owned := s.sessions.entries.filter fun (key, _) => i.owns key
  (owned.map fun (_, session) => session.summary (active = some session.key)).mergeSort before

/-! ## Names -/

/-- The key that a name stands for. -/
def nameKey (i : Identity) (name : String) : SessionKey :=
  if name.toList.contains ':' then ⟨name⟩ else i.keyNamed (Text.slug name)

/-- The session of an identity that a name stands for. -/
def lookup (s : Store) (i : Identity) (raw : String) : Except Error SessionKey :=
  let name := raw.trimBlank
  let key := nameKey i name
  if i.owns key && s.sessions.contains key then .ok key else .error (.sessionNotFound name)

/-- The key to create a session under: a whole key, which has to be the identity's own, or one
made of a bare name. -/
def requestedKey (i : Identity) (name : String) : Except Error SessionKey :=
  if name.toList.contains ':' then
    if i.owns ⟨name⟩ then .ok ⟨name⟩
    else
      .error (.invalidArguments "session_manage" (some "session_key")
        ("key '" ++ name ++ "' does not belong to " ++ i.name))
  else .ok (i.keyNamed (Text.slug name))

/-! ## Creating -/

/-- Put a session under its key unless the key is in use; says whether it was put there. -/
def insertVacant (s : Store) (session : Session) : Except Error Bool × Store :=
  if s.sessions.contains session.key then (.ok false, s)
  else
    let put := { s with sessions := s.sessions.set session.key session }
    match s.disk with
    | none => (.ok true, put)
    | some d =>
      match d.writeSession session with
      | (.ok (), d) => (.ok true, { put with disk := some d })
      | (.error e, d) => (.error (.file e), { s with disk := some d })

/-- A generated key: the base, or the base with a number from two on. -/
def numbered (base : String) (n : Nat) : SessionKey :=
  if n ≤ 1 then ⟨base⟩ else ⟨base ++ "-" ++ toString n⟩

/-- The first number from `n` on, among `tries` of them, that makes a key not in use. -/
def vacantNumber (s : Store) (base : String) (n : Nat) : Nat → Nat
  | 0 => n
  | tries + 1 =>
    if s.sessions.contains (numbered base n) then vacantNumber s base (n + 1) tries else n

/-- The base of the keys that are generated at an instant. -/
def generatedBase (i : Identity) (now : Timestamp) : String :=
  i.name ++ ":" ++ now.keyStamp

/-- The first generated key that is not in use.  Of more numbers than there are sessions, one
makes a key that is free. -/
def vacantKey (s : Store) (i : Identity) (now : Timestamp) : SessionKey :=
  let base := generatedBase i now
  numbered base (s.vacantNumber base 1 s.size)

/-- What a listing says about the session under a key, for an identity. -/
def summaryOf (s : Store) (i : Identity) (key : SessionKey) : Except Error Summary :=
  match s.sessions.get? key with
  | some session => .ok (session.summary (s.overrides.get? i = some session.key))
  | none => .error (.sessionNotFound key.text)

/-- Create a session under a key. -/
def createAt (s : Store) (i : Identity) (key : SessionKey) (title : Option String)
    (allowExisting : Bool) (now : Timestamp) : Except Error Summary × Store :=
  match s.insertVacant (.new key i title now) with
  | (.error e, s) => (.error e, s)
  | (.ok true, s) => (s.summaryOf i key, s)
  | (.ok false, s) =>
    (if allowExisting then s.summaryOf i key else .error (.duplicateName key.text), s)

/-- Create a session.  It is not switched in. -/
def create (s : Store) (i : Identity) (new : NewSession) (now : Timestamp) :
    Except Error Summary × Store :=
  match (new.key.map String.trimBlank).bind String.nonempty? with
  | none => s.createAt i (s.vacantKey i now) new.titleOf? false now
  | some name =>
    match requestedKey i name with
    | .error e => (.error e, s)
    | .ok key => s.createAt i key new.titleOf? new.allowExisting now

/-- The session that an identity talks to; the default session is created when it is missing. -/
def resolve (s : Store) (i : Identity) (now : Timestamp) : Except Error SessionKey × Store :=
  match (s.overrides.get? i).filter s.sessions.contains with
  | some key => (.ok key, s)
  | none =>
    match s.insertVacant (.new i.defaultKey i none now) with
    | (.error e, s) => (.error e, s)
    | (.ok _, s) => (.ok i.defaultKey, s)

/-! ## Switching -/

/-- Keep other overrides, if the directory takes them. -/
def keepOverrides (s : Store) (overrides : Table Identity SessionKey) :
    Except Error Unit × Store :=
  match s.disk with
  | none => (.ok (), { s with overrides })
  | some d =>
    match d.writeOverrides overrides with
    | (.ok (), d) => (.ok (), { s with overrides, disk := some d })
    | (.error e, d) => (.error (.file e), { s with disk := some d })

/-- Switch a session in. -/
def switch (s : Store) (i : Identity) (raw : String) : Except Error Summary × Store :=
  match s.lookup i raw with
  | .error e => (.error e, s)
  | .ok key =>
    match s.keepOverrides (s.overrides.set i key) with
    | (.error e, s) => (.error e, s)
    | (.ok (), s) =>
      match s.sessions.get? key with
      | some session => (.ok (session.summary true), s)
      | none => (.error (.sessionNotFound raw), s)

/-- Go back to the default session; it is no fault to be there already. -/
def reset (s : Store) (i : Identity) : Except Error Unit × Store :=
  match s.overrides.get? i with
  | none => (.ok (), s)
  | some _ => s.keepOverrides (s.overrides.erase i)

/-! ## Writing -/

end Store

/-- A session with one more turn, whose time is never before that of the turn before it. -/
def Session.extend (s : Session) (t : Turn) (now : Timestamp) : Turn × Session :=
  let t := match s.transcript.getLast? with
    | some last => { t with timestamp := t.timestamp.max last.timestamp }
    | none => t
  (t, { s with transcript := s.transcript ++ [t], updatedAt := now.max t.timestamp })

namespace Store

/-- Add a turn to a session. -/
def append (s : Store) (key : SessionKey) (t : Turn) (now : Timestamp) :
    Except Error Unit × Store :=
  match s.sessions.get? key with
  | none => (.error (.sessionNotFound key.text), s)
  | some session =>
    let (t, session) := session.extend t now
    let put := { s with sessions := s.sessions.set key session }
    match s.disk with
    | none => (.ok (), put)
    | some d =>
      match d.recordTurn session t with
      | (.ok (), d) => (.ok (), { put with disk := some d })
      | (.error e, d) => (.error (.file e), { s with disk := some d })

/-- Empty the transcript of a session. -/
def clear (s : Store) (key : SessionKey) (now : Timestamp) : Except Error Unit × Store :=
  match s.sessions.get? key with
  | none => (.error (.sessionNotFound key.text), s)
  | some session =>
    let session := { session with transcript := [], updatedAt := now }
    let put := { s with sessions := s.sessions.set key session }
    match s.disk with
    | none => (.ok (), put)
    | some d =>
      match d.writeSession session with
      | (.ok (), d) => (.ok (), { put with disk := some d })
      | (.error e, d) => (.error (.file e), { s with disk := some d })

/-- The store without a session that an identity has switched in, as far as the directory goes
along; if it does not, the override is dropped in memory only. -/
def dropOverride (s : Store) (i : Identity) : Store :=
  let s := { s with overrides := s.overrides.erase i }
  match s.disk with
  | none => s
  | some d => { s with disk := some (d.writeOverrides s.overrides).2 }

/-- Remove a session of an identity. -/
def delete (s : Store) (i : Identity) (raw : String) : Except Error SessionKey × Store :=
  match s.lookup i raw with
  | .error e => (.error e, s)
  | .ok key =>
    let gone (s : Store) : Except Error SessionKey × Store :=
      let s := { s with sessions := s.sessions.erase key }
      (.ok key, if s.overrides.get? i = some key then s.dropOverride i else s)
    match s.disk with
    | none => gone s
    | some d =>
      match d.removeSession key with
      | .error e => (.error (.file e), s)
      | .ok d => gone { s with disk := some d }

end Store

end Parley
