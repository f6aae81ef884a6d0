import Mathlib.Data.List.Induction
import Parley.Proofs.Time.Rfc3339
import Parley.Session.Request

/-!
# Calls that share a store

`Store` does each operation at once.  Several callers do it step by step: a session stands in a slot
with a lock of its own, one more lock is for whoever creates sessions, and one for the overrides.
A call looks for a slot, waits for a lock, does its work under it and frees it, and between any two
of these steps other callers may take theirs.

* **Creating** goes under the lock for creation: the key is looked up, the file is written, and
  only then does the session become visible.
* **Adding a turn and clearing** go under the lock of the slot, which was looked up before.
* **Deleting** goes under the lock of the overrides: the file goes first, then the key.  The slot's
  own lock is not taken.

`Stage` is what is left to do of a call, and `Stage.step` does the next step of it, or waits.  What
a step does that others can see is its `Deed`.  A `Scene` is everything at one moment, with the
deeds so far, and `Scene.Reached` are the scenes that some interleaving leads to.
-/

namespace Parley.Slots

/-! ## What is shared -/

/-- What a lock is for. -/
inductive Lock where
  | creating
  | overrides
  | slot (n : Nat)
  deriving DecidableEq, Repr

/-- The slots, which of them the keys stand for, and all else that callers share. -/
structure Shared where
  /-- The sessions that ever became visible, also those that are deleted. -/
  slots : List Session := []
  index : Table SessionKey Nat := .empty
  overrides : Table Identity SessionKey := .empty
  disk : Directory
  /-- The locks that are taken. -/
  held : List Lock := []

/-- A session is put into a slot of its own, and its key stands for that. -/
def Shared.place (sh : Shared) (x : Session) : Shared :=
  { sh with slots := sh.slots ++ [x], index := sh.index.set x.key sh.slots.length }

/-- What is shared of a store that was opened: each session of the directory is put into a slot. -/
def Shared.opened (sessions : List Session) (overrides : Table Identity SessionKey)
    (d : Directory) : Shared :=
  sessions.foldl place { overrides, disk := d }

/-! ## Calls -/

/-- What may be called. -/
inductive Call where
  | create (i : Identity) (new : NewSession)
  | resolve (i : Identity)
  | append (key : SessionKey) (t : Turn)
  | clear (key : SessionKey)
  | delete (i : Identity) (name : String)

/-- What a call may return. -/
inductive Reply where
  | summary (r : Except Error Summary)
  | key (r : Except Error SessionKey)
  | unit (r : Except Error Unit)

/-- The request that a call makes of the store. -/
def Call.request : Call → StoreRequest
  | create i new => .create i new
  | resolve i => .resolve i
  | append key t => .append key t
  | clear key => .clear key
  | delete i name => .delete i name

/-- The answer to its request, as the call returns it. -/
def Call.reply : (c : Call) → c.request.Answer → Reply
  | create .., r => .summary r
  | resolve _, r | delete .., r => .key r
  | append .., r | clear _, r => .unit r

/-- What a session is created for, which decides what is done if its key is in use. -/
inductive Purpose where
  /-- The key was asked for; the session that is there may do as well. -/
  | named (key : SessionKey) (allowExisting : Bool)
  /-- The key was generated, and others may be tried. -/
  | generated (base : String) (n : Nat)
  /-- The identity has no session yet. -/
  | default

/-- A session that is to be created. -/
structure Wish where
  identity : Identity
  title : Option String
  purpose : Purpose

namespace Wish

/-- The key of the session. -/
def key (w : Wish) : SessionKey :=
  match w.purpose with
  | .named key _ => key
  | .generated base n => Store.numbered base n
  | .default => w.identity.defaultKey

/-- The session that is created at an instant. -/
def session (w : Wish) (now : Timestamp) : Session := .new w.key w.identity w.title now

/-- What a request to create a session wishes for. -/
def of (i : Identity) (new : NewSession) (now : Timestamp) : Except Error Wish :=
  match (new.key.map String.trimBlank).bind String.nonempty? with
  | none => .ok ⟨i, new.titleOf?, .generated (Store.generatedBase i now) 1⟩
  | some name =>
    (Store.requestedKey i name).map fun key => ⟨i, new.titleOf?, .named key new.allowExisting⟩

end Wish

/-- What is done to a session in its slot. -/
inductive Job where
  | say (t : Turn)
  | clear

namespace Job

/-- The session after it. -/
def apply (now : Timestamp) (x : Session) : Job → Session
  | say t => (x.extend t now).2
  | clear => { x with transcript := [], updatedAt := now }

/-- How it is kept in the directory. -/
def write (now : Timestamp) (x : Session) (d : Directory) : Job → Except FileError Unit × Directory
  | say t => d.recordTurn (x.extend t now).2 (x.extend t now).1
  | clear => d.writeSession (apply now x clear)

end Job

/-! ## Steps -/

/-- What others can see of a step. -/
inductive Deed where
  /-- A session became visible. -/
  | made (x : Session)
  /-- A session was to be created under a key in use. -/
  | met (key : SessionKey)
  /-- A turn was added. -/
  | said (key : SessionKey) (t : Turn)
  | cleared (key : SessionKey)
  /-- The file of a session was removed. -/
  | unlinked (key : SessionKey)
  /-- The key of a session was removed. -/
  | forgotten (key : SessionKey)
  /-- The directory refused. -/
  | refused (e : FileError)

/-- What is seen of a job. -/
def Job.deed (now : Timestamp) (x : Session) : Job → Deed
  | say t => .said x.key (x.extend t now).1
  | clear => .cleared x.key

/-- What is left to do of a call. -/
inductive Stage where
  | start (c : Call)
  | take (l : Lock) (next : Stage)
  | free (l : Lock) (next : Stage)
  | draft (w : Wish)
  /-- Under the lock for creation: look whether the key is in use, write the file, make the session
  visible. -/
  | check (w : Wish) (x : Session)
  | write (w : Wish) (x : Session)
  | place (w : Wish) (x : Session)
  /-- Under the lock of the slot, and then of the overrides: sum the session up. -/
  | glance (w : Wish) (n : Nat)
  | compare (w : Wish) (s : Summary)
  /-- Under the lock of the overrides: look for the session that is switched in. -/
  | consult (i : Identity)
  /-- Under the lock of the slot. -/
  | work (n : Nat) (job : Job)
  /-- Under the lock of the overrides: look for the session, remove its file, its key and the
  override that names it. -/
  | seek (i : Identity) (name : String)
  | unlink (i : Identity) (key : SessionKey)
  | forget (i : Identity) (key : SessionKey)
  | drop (i : Identity) (key : SessionKey)
  | returned (r : Reply)

/-- How a creation goes on when the session is visible. -/
def Wish.made (w : Wish) (n : Nat) : Stage :=
  match w.purpose with
  | .default => .returned (.key (.ok w.key))
  | _ => .take (.slot n) (.glance w n)

/-- How a creation goes on when its key is in use. -/
def Wish.met (w : Wish) (n : Nat) : Stage :=
  match w.purpose with
  | .default => .returned (.key (.ok w.key))
  | .generated base k => .draft { w with purpose := .generated base (k + 1) }
  | .named _ true => .take (.slot n) (.glance w n)
  | .named key false => .returned (.summary (.error (.duplicateName key.text)))

/-- How a creation ends that the directory refused. -/
def Wish.refused (w : Wish) (e : FileError) : Reply :=
  match w.purpose with
  | .default => .key (.error (.file e))
  | _ => .summary (.error (.file e))

namespace Stage

/-- How a call goes on that wants to work on the session under a key. -/
def attend (sh : Shared) (key : SessionKey) (job : Job) : Stage :=
  match sh.index.get? key with
  | none => returned (.unit (.error (.sessionNotFound key.text)))
  | some n => take (.slot n) (work n job)

/-- A step that changes nothing. -/
def look (now : Timestamp) (sh : Shared) : Stage → Option (Option Deed × Stage)
  | start (.create i new) =>
    match Wish.of i new now with
    | .error e => some (none, returned (.summary (.error e)))
    | .ok w => some (none, draft w)
  | start (.resolve i) => some (none, take .overrides (consult i))
  | start (.append key t) => some (none, attend sh key (.say t))
  | start (.clear key) => some (none, attend sh key .clear)
  | start (.delete i name) => some (none, take .overrides (seek i name))
  | draft w => some (none, take .creating (check w (w.session now)))
  | check w x =>
    match sh.index.get? w.key with
    | some n => some (some (.met w.key), free .creating (w.met n))
    | none => some (none, write w x)
  | glance w n =>
    (sh.slots[n]?).map fun x =>
      (none, free (.slot n) (take .overrides (compare w (x.summary false))))
  | compare w s =>
    let active := decide (sh.overrides.get? w.identity = some s.key)
    some (none, free .overrides (returned (.summary (.ok { s with active }))))
  | consult i =>
    match (sh.overrides.get? i).filter sh.index.contains with
    | some key => some (none, free .overrides (returned (.key (.ok key))))
    | none => some (none, free .overrides (draft ⟨i, none, .default⟩))
  | seek i name =>
    let key := Store.nameKey i name.trimBlank
    if i.owns key && sh.index.contains key then some (none, unlink i key)
    else some (none, free .overrides (returned (.key (.error (.sessionNotFound name.trimBlank)))))
  | _ => none

/-- The next step, with what is seen of it; `none` if there is none, or a lock is to be waited
for. -/
def step (now : Timestamp) (sh : Shared) : Stage → Option (Option Deed × Shared × Stage)
  | take l s => if l ∈ sh.held then none else some (none, { sh with held := l :: sh.held }, s)
  | free l s => some (none, { sh with held := sh.held.erase l }, s)
  | write w x =>
    match sh.disk.writeSession x with
    | (.ok (), d) => some (none, { sh with disk := d }, place w x)
    | (.error e, d) =>
      some (some (.refused e), { sh with disk := d }, free .creating (returned (w.refused e)))
  | place w x => some (some (.made x), sh.place x, free .creating (w.made sh.slots.length))
  | work n job =>
    (sh.slots[n]?).map fun x =>
      match job.write now x sh.disk with
      | (.ok (), d) =>
        (some (job.deed now x), { sh with slots := sh.slots.set n (job.apply now x), disk := d },
          free (.slot n) (returned (.unit (.ok ()))))
      | (.error e, d) =>
        (some (.refused e), { sh with disk := d },
          free (.slot n) (returned (.unit (.error (.file e)))))
  | unlink i key =>
    match sh.disk.removeSession key with
    | .ok d => some (some (.unlinked key), { sh with disk := d }, forget i key)
    | .error e => some (some (.refused e), sh, free .overrides (returned (.key (.error (.file e)))))
  | forget i key =>
    some (some (.forgotten key), { sh with index := sh.index.erase key }, drop i key)
  | drop i key =>
    let overrides := sh.overrides.erase i
    let dropped := { sh with overrides, disk := (sh.disk.writeOverrides overrides).2 }
    some (none, if sh.overrides.get? i = some key then dropped else sh,
      free .overrides (returned (.key (.ok key))))
  | s => (s.look now sh).map fun (deed, s') => (deed, sh, s')

end Stage

/-! ## What a step can do -/

/-- Everything that a step can do, with what is seen of it. -/
inductive Effect (now : Timestamp) (sh : Shared) :
    Stage → Option Deed → Shared → Stage → Prop where
  | take (l : Lock) (s : Stage) (hfree : l ∉ sh.held) :
    Effect now sh (.take l s) none { sh with held := l :: sh.held } s
  | free (l : Lock) (s : Stage) :
    Effect now sh (.free l s) none { sh with held := sh.held.erase l } s
  | look {s s' : Stage} {deed : Option Deed} (h : s.look now sh = some (deed, s')) :
    Effect now sh s deed sh s'
  | write (w : Wish) {x : Session} {d : Directory} (h : sh.disk.writeSession x = (.ok (), d)) :
    Effect now sh (.write w x) none { sh with disk := d } (.place w x)
  | notWrite (w : Wish) {x : Session} {e : FileError} {d : Directory}
    (h : sh.disk.writeSession x = (.error e, d)) :
    Effect now sh (.write w x) (some (.refused e)) { sh with disk := d }
      (.free .creating (.returned (w.refused e)))
  | place (w : Wish) (x : Session) :
    Effect now sh (.place w x) (some (.made x)) (sh.place x)
      (.free .creating (w.made sh.slots.length))
  | work {n : Nat} {job : Job} {x : Session} {d : Directory} (hx : sh.slots[n]? = some x)
    (h : job.write now x sh.disk = (.ok (), d)) :
    Effect now sh (.work n job) (some (job.deed now x))
      { sh with slots := sh.slots.set n (job.apply now x), disk := d }
      (.free (.slot n) (.returned (.unit (.ok ()))))
  | notWork {n : Nat} {job : Job} {x : Session} {e : FileError} {d : Directory}
    (hx : sh.slots[n]? = some x) (h : job.write now x sh.disk = (.error e, d)) :
    Effect now sh (.work n job) (some (.refused e)) { sh with disk := d }
      (.free (.slot n) (.returned (.unit (.error (.file e)))))
  | unlink (i : Identity) {key : SessionKey} {d : Directory}
    (h : sh.disk.removeSession key = .ok d) :
    Effect now sh (.unlink i key) (some (.unlinked key)) { sh with disk := d } (.forget i key)
  | notUnlink (i : Identity) {key : SessionKey} {e : FileError}
    (h : sh.disk.removeSession key = .error e) :
    Effect now sh (.unlink i key) (some (.refused e)) sh
      (.free .overrides (.returned (.key (.error (.file e)))))
  | forget (i : Identity) (key : SessionKey) :
    Effect now sh (.forget i key) (some (.forgotten key)) { sh with index := sh.index.erase key }
      (.drop i key)
  /-- The override that names the session goes, in the directory if that takes it. -/
  | drop (i : Identity) (key : SessionKey) :
    Effect now sh (.drop i key) none
      { sh with
        overrides := sh.overrides.erase i
        disk := (sh.disk.writeOverrides (sh.overrides.erase i)).2 }
      (.free .overrides (.returned (.key (.ok key))))
  | notDrop (i : Identity) (key : SessionKey) :
    Effect now sh (.drop i key) none sh (.free .overrides (.returned (.key (.ok key))))

/-- **A step does nothing else.** -/
theorem effect_of_step {now : Timestamp} {sh sh' : Shared} {s s' : Stage} {deed : Option Deed}
    (h : s.step now sh = some (deed, sh', s')) : Effect now sh s deed sh' s' := by
  cases s with
  | take l s =>
    simp only [Stage.step] at h
    split at h
    case isTrue => cases h
    case isFalse hfree =>
      cases h
      exact .take _ _ hfree
  | free l s =>
    cases h
    exact .free _ _
  | write w x =>
    simp only [Stage.step] at h
    split at h
    case h_1 hwrite =>
      cases h
      exact .write w hwrite
    case h_2 hwrite =>
      cases h
      exact .notWrite w hwrite
  | place w x =>
    cases h
    exact .place w x
  | work n job =>
    obtain ⟨x, hx, h⟩ := Option.map_eq_some_iff.1 h
    split at h
    case h_1 hwrite =>
      cases h
      exact .work hx hwrite
    case h_2 hwrite =>
      cases h
      exact .notWork hx hwrite
  | unlink i key =>
    simp only [Stage.step] at h
    split at h
    case h_1 hremove =>
      cases h
      exact .unlink i hremove
    case h_2 hremove =>
      cases h
      exact .notUnlink i hremove
  | forget i key =>
    cases h
    exact .forget i key
  | drop i key =>
    simp only [Stage.step] at h
    split at h
    · cases h
      exact .drop i key
    · cases h
      exact .notDrop i key
  | start | draft | check | glance | compare | consult | seek | returned =>
    simp only [Stage.step] at h
    obtain ⟨⟨deed, s'⟩, hlook, heq⟩ := Option.map_eq_some_iff.1 h
    cases heq
    exact .look hlook

/-- Looking is seen only of a creation whose key is in use. -/
theorem deed_of_look {now : Timestamp} {sh : Shared} {s s' : Stage} {deed : Option Deed}
    (h : s.look now sh = some (deed, s')) : deed = none ∨ ∃ key, deed = some (.met key) := by
  cases s with
  | start c =>
    cases c with
    | create i new =>
      simp only [Stage.look] at h
      split at h <;> cases h <;> exact .inl rfl
    | resolve | append | clear | delete =>
      cases h
      exact .inl rfl
  | check w x =>
    simp only [Stage.look] at h
    split at h <;> cases h
    · exact .inr ⟨_, rfl⟩
    · exact .inl rfl
  | glance w n =>
    obtain ⟨x, -, heq⟩ := Option.map_eq_some_iff.1 h
    cases heq
    exact .inl rfl
  | draft w | compare w t =>
    cases h
    exact .inl rfl
  | consult i | seek i name =>
    simp only [Stage.look] at h
    split at h <;> cases h <;> exact .inl rfl
  | take | free | write | place | work | unlink | forget | drop | returned => cases h

/-! ## Scenes -/

/-- A call under way. -/
structure Caller where
  call : Call
  stage : Stage

/-- What a call returned, if it has. -/
def Caller.reply? (c : Caller) : Option Reply :=
  match c.stage with
  | .returned r => some r
  | _ => none

/-- The deeds so far, each with the place of its caller. -/
abbrev History := List (Nat × Deed)

/-- Everything at one moment. -/
structure Scene where
  shared : Shared
  callers : List Caller := []
  history : History := []

/-- The scenes that come of what is shared at the beginning, when calls with a property come in and
take their steps in any order, each at some instant. -/
inductive Scene.Reached (P : Call → Prop) (sh₀ : Shared) : Scene → Prop where
  | start : Reached P sh₀ { shared := sh₀ }
  | come {sh : Shared} {callers : List Caller} {h : History}
    (hreached : Reached P sh₀ ⟨sh, callers, h⟩) (c : Call) (hc : P c) :
    Reached P sh₀ ⟨sh, callers ++ [⟨c, .start c⟩], h⟩
  | go {sh sh' : Shared} {callers : List Caller} {h : History} {k : Nat} {c : Caller}
    {deed : Option Deed} {s' : Stage} (hreached : Reached P sh₀ ⟨sh, callers, h⟩)
    (now : Timestamp) (hnow : now.Valid) (hk : callers[k]? = some c)
    (hstep : c.stage.step now sh = some (deed, sh', s')) :
    Reached P sh₀ ⟨sh', callers.set k ⟨c.call, s'⟩, h ++ deed.toList.map (Prod.mk k)⟩

/-! ## Plans -/

/-- The scene in which calls came in, and nothing else has happened. -/
def Scene.of (sh : Shared) (calls : List Call) : Scene where
  shared := sh
  callers := calls.map fun c => ⟨c, .start c⟩

/-- What one caller does at an instant, unless it has to wait. -/
def Scene.turn (now : Timestamp) (sc : Scene) (k : Nat) : Scene :=
  match sc.callers[k]? with
  | none => sc
  | some c =>
    match c.stage.step now sc.shared with
    | none => sc
    | some (deed, sh', s') =>
      ⟨sh', sc.callers.set k ⟨c.call, s'⟩, sc.history ++ deed.toList.map (Prod.mk k)⟩

theorem Scene.reached_of {P : Call → Prop} (sh : Shared) {calls : List Call}
    (h : ∀ c ∈ calls, P c) : (Scene.of sh calls).Reached P sh := by
  induction calls using List.reverseRecOn with
  | nil => exact .start
  | append_singleton calls c ih =>
    have hall := List.forall_mem_append.1 h
    have hcome := Reached.come (ih hall.1) c (hall.2 c List.mem_cons_self)
    rw [Scene.of, List.map_append]
    exact hcome

theorem Scene.Reached.turn {P : Call → Prop} {sh : Shared} {sc : Scene} (h : sc.Reached P sh)
    {now : Timestamp} (hnow : now.Valid) (k : Nat) : (sc.turn now k).Reached P sh := by
  unfold Scene.turn
  split
  · exact h
  case h_2 c hk =>
    split
    · exact h
    case h_2 deed sh' s' hstep => exact .go h now hnow hk hstep

/-- Callers who take their turns in the order of a plan. -/
theorem Scene.Reached.play {P : Call → Prop} {sh : Shared} {sc : Scene} (h : sc.Reached P sh)
    {now : Timestamp} (hnow : now.Valid) (plan : List Nat) :
    (plan.foldl (Scene.turn now) sc).Reached P sh := by
  induction plan generalizing sc with
  | nil => exact h
  | cons k plan ih => exact ih (h.turn hnow k)

end Parley.Slots
