import Parley.Proofs.Session.Mirror
import Parley.Proofs.Session.Switched

/-!
# Reopening restores the store

A store that was opened in an empty directory, and has been asked since by identities that share
no keys, is what its directory opens as (`openAt_of_kept`): the sessions with all that belongs to
them, and the overrides.  A session whose file was taken away from outside is missing until the
next turn or clearing writes it again.

`Kept` is the history: requests at instants that do not go back, whatever the system refuses at
each of them, and files that get lost in between.  What every step of it preserves has two sides:
the store is in order by itself (`Tended`), and its directory mirrors it (`Mirrors`).
-/

namespace Parley

open SessionFile Directory

/-! ## Histories -/

/-- Identities that are named by their written form and own no key in common. -/
structure Neighbours (owners : Identity → Prop) : Prop where
  nameable : ∀ i, owners i → i.Nameable
  apart : ∀ i j key, owners i → owners j → i.owns key → j.owns key → i = j

/-- A turn to be recorded has the time of the clock, and a content that is read back. -/
def StoreRequest.Stamped (now : Timestamp) : StoreRequest → Prop
  | .append _ t => t.timestamp = now ∧ t.content.Storable
  | _ => True

/-- The sessions whose files are missing after a request that was answered: a turn or clearing
brings the file back, and a session that was deleted has none to miss. -/
def StoreRequest.missing (gone : List SessionKey) : (r : StoreRequest) → r.Answer → List SessionKey
  | .append key _, .ok () | .clear key, .ok () => gone.filter (· ≠ key)
  | .delete _ _, .ok key => gone.filter (· ≠ key)
  | _, _ => gone

theorem StoreRequest.missing_nil (r : StoreRequest) (a : r.Answer) : r.missing [] a = [] := by
  unfold missing
  split <;> rfl

namespace Store

/-- The store, while the system refuses some actions. -/
def under (s : Store) (refusal : FileAction → Option FileError) : Store :=
  { s with disk := s.disk.map fun d => { d with refusal } }

/-- The store after the file of a session was taken away. -/
def withoutFile (s : Store) (key : SessionKey) : Store :=
  { s with disk := s.disk.map fun d => { d with entries := d.entries.erase (fileName key) } }

/-- A deletion that is answered well did not fail silently: the system did not call the session's
file missing, and let the file of the overrides be written if the session was switched in. -/
def Unharmed (s : Store) (refusal : FileAction → Option FileError) : StoreRequest → Prop
  | .delete i name => ∀ key, (s.delete i name).1 = .ok key →
      refusal (.remove (fileName key)) ≠ some .notFound ∧
        (s.overrides.get? i = some key →
          refusal (.create (draftName overridesName)) = none ∧
            refusal (.rename (draftName overridesName) overridesName) = none)
  | _ => True

end Store

/-- A store with a history of requests that some identities made, the latest at the instant
`last`, after which the files of the sessions in `gone` are missing. -/
inductive Kept (owners : Identity → Prop) : Store → Timestamp → List SessionKey → Prop
  /-- The store was opened in an empty directory. -/
  | opened {d d' : Directory} {s : Store} (last : Timestamp) (hempty : d.entries = .empty)
      (hopen : Store.openAt d = (.ok s, d')) : Kept owners s last []
  /-- A request was answered, whatever the system refused. -/
  | answered {s : Store} {last : Timestamp} {gone : List SessionKey} (h : Kept owners s last gone)
      (refusal : FileAction → Option FileError) (r : StoreRequest) (now : Timestamp)
      (hissued : r.IssuedBy owners) (hclock : last.le now) (hnow : now.Valid)
      (hstamped : r.Stamped now)
      (hunharmed : (s.under refusal).Unharmed refusal r) :
      Kept owners (Store.answer now r (s.under refusal)).2 now
        (r.missing gone (Store.answer now r (s.under refusal)).1)
  /-- The file of a session was taken away from outside. -/
  | removed {s : Store} {last : Timestamp} {gone : List SessionKey} (h : Kept owners s last gone)
      (key : SessionKey) (hkey : s.sessions.contains key) :
      Kept owners (s.withoutFile key) last (key :: gone)

/-! ## Stores that are in order -/

/-- A session under its own key, which one of the identities owns; neither its last change nor any
turn is after `last`. -/
structure Settled (owners : Identity → Prop) (last : Timestamp) (key : SessionKey) (x : Session) :
    Prop where
  own : x.key = key
  owned : ∃ i, owners i ∧ i.owns key
  storable : x.Storable
  updated : x.updatedAt.le last
  stamped : ∀ t ∈ x.transcript, t.timestamp.le last

theorem Settled.mono {owners : Identity → Prop} {last now : Timestamp} {key : SessionKey}
    {x : Session} (h : Settled owners last key x) (hclock : last.le now) :
    Settled owners now key x :=
  ⟨h.own, h.owned, h.storable, Timestamp.le_trans h.updated hclock,
    fun t ht => Timestamp.le_trans (h.stamped t ht) hclock⟩

/-- A turn of this instant was added. -/
theorem Settled.extend {owners : Identity → Prop} {now : Timestamp} {key : SessionKey}
    {x : Session} (h : Settled owners now key x) {t : Turn} (hstamp : t.timestamp = now)
    (hcontent : t.content.Storable) (hnow : now.Valid) :
    Settled owners now key
      { x with transcript := x.transcript ++ [t], updatedAt := now } := by
  have hmem {u : Turn} (hu : u ∈ x.transcript ++ [t]) : u ∈ x.transcript ∨ u = t := by
    rw [List.mem_append, List.mem_singleton] at hu
    exact hu
  refine ⟨h.own, h.owned, ⟨h.storable.createdAt, hnow, fun u hu => ?_⟩, Timestamp.le_refl now,
    fun u hu => ?_⟩
  · rcases hmem hu with hold | rfl
    · exact h.storable.transcript u hold
    · exact ⟨hcontent, hstamp ▸ hnow⟩
  · rcases hmem hu with hold | rfl
    · exact h.stamped u hold
    · rw [hstamp]
      exact Timestamp.le_refl now

/-- All turns were taken away. -/
theorem Settled.clear {owners : Identity → Prop} {now : Timestamp} {key : SessionKey}
    {x : Session} (h : Settled owners now key x) (hnow : now.Valid) :
    Settled owners now key { x with transcript := [], updatedAt := now } :=
  ⟨h.own, h.owned, ⟨h.storable.createdAt, hnow, nofun⟩, Timestamp.le_refl now, nofun⟩

/-- Sessions that are settled, and overrides that are sound. -/
structure Tended (owners : Identity → Prop) (sessions : Table SessionKey Session)
    (overrides : Table Identity SessionKey) (last : Timestamp) : Prop where
  settled : ∀ key x, sessions.get? key = some x → Settled owners last key x
  distinct : overrides.Distinct
  switched : ∀ i key, overrides.get? i = some key →
    owners i ∧ i.owns key ∧ sessions.contains key

/-- A store in order, whose directory mirrors it. -/
structure Tidy (owners : Identity → Prop) (s : Store) (last : Timestamp) (gone : List SessionKey) :
    Prop where
  tended : Tended owners s.sessions s.overrides last
  mirrored : ∃ d, s.disk = some d ∧ Mirrors s.sessions s.overrides gone d

variable {owners : Identity → Prop} {s : Store} {last now : Timestamp} {gone : List SessionKey}
  {sessions : Table SessionKey Session} {overrides : Table Identity SessionKey}
  {key : SessionKey} {x : Session}

namespace Tended

theorem mono (h : Tended owners sessions overrides last) (hclock : last.le now) :
    Tended owners sessions overrides now :=
  ⟨fun key x hx => (h.settled key x hx).mono hclock, h.distinct, h.switched⟩

theorem set (h : Tended owners sessions overrides last) (hx : Settled owners last key x) :
    Tended owners (sessions.set key x) overrides last := by
  refine ⟨fun other y hy => ?_, h.distinct, Store.Sound.set h.switched key x⟩
  rw [Table.get?_set] at hy
  split at hy
  · rename_i heq
    cases hy
    rw [heq]
    exact hx
  · exact h.settled other y hy

theorem text_ne (h : Tended owners sessions overrides last) (hkey : sessions.contains key) :
    key.text ≠ "" := by
  obtain ⟨x, hx⟩ := Option.isSome_iff_exists.1 hkey
  obtain ⟨i, -, howns⟩ := (h.settled key x hx).owned
  exact text_ne_of_owns howns

/-- One more override. -/
theorem switch (h : Tended owners sessions overrides last) {i : Identity} (howner : owners i)
    (howns : i.owns key) (hstored : sessions.contains key) :
    Tended owners sessions (overrides.set i key) last :=
  ⟨h.settled, h.distinct.set i key, Store.Sound.switch h.switched howner howns hstored⟩

/-- One override less. -/
theorem reset (h : Tended owners sessions overrides last) (i : Identity) :
    Tended owners sessions (overrides.erase i) last :=
  ⟨h.settled, h.distinct.erase i, Store.Sound.reset h.switched i⟩

/-- One session less, which no override names. -/
theorem erase (h : Tended owners sessions overrides last)
    (hunnamed : ∀ i, overrides.get? i ≠ some key) :
    Tended owners (sessions.erase key) overrides last := by
  refine ⟨fun other y hy => ?_, h.distinct, Store.Sound.erase h.switched hunnamed⟩
  rw [Table.get?_erase] at hy
  split at hy
  · cases hy
  · exact h.settled other y hy

theorem nameable (hneighbours : Neighbours owners) (h : Tended owners sessions overrides last) :
    ∀ i key, overrides.get? i = some key → i.Nameable := fun i key hkey =>
  hneighbours.nameable i (h.switched i key hkey).1

end Tended

/-! ## What every request preserves -/

namespace Tidy

theorem under (h : Tidy owners s last gone) (refusal : FileAction → Option FileError) :
    Tidy owners (s.under refusal) last gone := by
  obtain ⟨htended, d, hd, hmirrors⟩ := h
  refine ⟨htended, { d with refusal }, ?_, ?_⟩
  · rw [Store.under, hd]
    rfl
  · exact ⟨hmirrors.named, hmirrors.stored, hmirrors.file, hmirrors.missing, hmirrors.only,
      hmirrors.overrides, hmirrors.plain⟩

theorem mono (h : Tidy owners s last gone) (hclock : last.le now) : Tidy owners s now gone :=
  ⟨h.tended.mono hclock, h.mirrored⟩

theorem assemble_of_empty (hempty : x.transcript = []) : assemble x x.transcript = x := by
  obtain ⟨key, identity, title, createdAt, updatedAt, transcript⟩ := x
  cases hempty
  rfl

/-- The time of the last turn is that of the last change. -/
theorem assemble_extend {t : Turn} (hstamp : t.timestamp = now) :
    assemble { x with transcript := x.transcript ++ [t], updatedAt := now } (x.transcript ++ [t]) =
      { x with transcript := x.transcript ++ [t], updatedAt := now } := by
  rw [assemble, List.getLast?_append, List.getLast?_singleton]
  dsimp only [Option.some_or, Option.map_some, Option.getD_some]
  rw [hstamp, Timestamp.max_self]

/-- A new session is put there or not, but never in part. -/
theorem insertVacant (h : Tidy owners s last gone) (hx : Settled owners last x.key x)
    (hempty : x.transcript = []) : Tidy owners (s.insertVacant x).2 last gone := by
  obtain ⟨htended, d, hd, hmirrors⟩ := h
  rw [Store.insertVacant]
  split
  · exact ⟨htended, d, hd, hmirrors⟩
  rename_i hvacant
  rw [hd]
  dsimp only
  obtain ⟨i, -, howns⟩ := hx.owned
  have hkey := text_ne_of_owns howns
  split
  · rename_i d' hwrite
    obtain ⟨htouches, hfile⟩ := replace_ok (counts_fileName hkey) hwrite
    have hassemble := assemble_of_empty hempty
    have hmirrors' := hmirrors.set hkey htouches hfile (says_text hx.storable.updatedAt hassemble)
    have hgone : gone.filter (· ≠ x.key) = gone := by
      rw [List.filter_eq_self]
      intro key hmem
      refine decide_eq_true fun heq => hvacant ?_
      rw [← heq]
      exact hmirrors.stored key hmem
    rw [hgone] at hmirrors'
    exact ⟨htended.set hx, d', rfl, hmirrors'⟩
  · rename_i e d' hwrite
    obtain ⟨htouches, hsame⟩ := replace_error (counts_fileName hkey) hwrite
    exact ⟨htended, d', rfl, hmirrors.touched htouches hsame⟩

theorem settled_new {i : Identity} (howner : owners i) (howns : i.owns key) (title : Option String)
    (hnow : now.Valid) : Settled owners now key (.new key i title now) :=
  ⟨rfl, ⟨i, howner, howns⟩, ⟨hnow, hnow, nofun⟩, Timestamp.le_refl now, nofun⟩

theorem createAt (h : Tidy owners s now gone) {i : Identity} (howner : owners i)
    (howns : i.owns key) (title : Option String) (allowExisting : Bool) (hnow : now.Valid) :
    Tidy owners (s.createAt i key title allowExisting now).2 now gone := by
  have hinsert := h.insertVacant (x := .new key i title now)
    (settled_new howner howns title hnow) rfl
  rw [Store.createAt]
  split
  all_goals
    rename_i heq
    rw [heq] at hinsert
    exact hinsert

theorem create (h : Tidy owners s now gone) {i : Identity} (howner : owners i) (new : NewSession)
    (hnow : now.Valid) : Tidy owners (s.create i new now).2 now gone := by
  rw [Store.create]
  split
  · exact h.createAt howner (owns_vacantKey s i now) _ _ hnow
  · split
    · exact h
    · rename_i hkey
      exact h.createAt howner (owns_requestedKey hkey) _ _ hnow

theorem resolve (h : Tidy owners s now gone) {i : Identity} (howner : owners i) (hnow : now.Valid) :
    Tidy owners (s.resolve i now).2 now gone := by
  have hinsert := h.insertVacant (x := .new i.defaultKey i none now)
    (settled_new howner (owns_defaultKey i) none hnow) rfl
  rw [Store.resolve]
  split
  · exact h
  · split
    all_goals
      rename_i heq
      rw [heq] at hinsert
      exact hinsert

/-- Other overrides are kept as a whole or not at all. -/
theorem keepOverrides (hneighbours : Neighbours owners) (h : Tidy owners s last gone)
    {others : Table Identity SessionKey} (hothers : Tended owners s.sessions others last) :
    Tidy owners (s.keepOverrides others).2 last gone := by
  obtain ⟨htended, d, hd, hmirrors⟩ := h
  rw [Store.keepOverrides, hd]
  dsimp only
  split
  · rename_i d' hwrite
    obtain ⟨htouches, hfile⟩ := replace_ok counts_overridesName hwrite
    exact ⟨hothers, d', rfl, hmirrors.switch hothers.distinct (hothers.nameable hneighbours)
      htouches hfile⟩
  · rename_i e d' hwrite
    obtain ⟨htouches, hsame⟩ := replace_error counts_overridesName hwrite
    exact ⟨htended, d', rfl, hmirrors.touched htouches hsame⟩

theorem switch (hneighbours : Neighbours owners) (h : Tidy owners s last gone) {i : Identity}
    (howner : owners i) (raw : String) : Tidy owners (s.switch i raw).2 last gone := by
  unfold Store.switch
  split
  · exact h
  · rename_i key hkey
    obtain ⟨howns, hstored⟩ := lookup_ok hkey
    have hkeep := h.keepOverrides hneighbours (h.tended.switch howner howns hstored)
    split
    · rename_i heq
      rw [heq] at hkeep
      exact hkeep
    · rename_i heq
      rw [heq] at hkeep
      split <;> exact hkeep

theorem reset (hneighbours : Neighbours owners) (h : Tidy owners s last gone) (i : Identity) :
    Tidy owners (s.reset i).2 last gone := by
  rw [Store.reset]
  split
  · exact h
  · exact h.keepOverrides hneighbours (h.tended.reset i)

/-- After a turn was recorded the file says what the session is: the line was added to a file that
said it before, or the file was written anew. -/
theorem says_of_recordTurn {d d' : Directory} (hmirrors : Mirrors sessions overrides gone d)
    (hget : sessions.get? key = some x) (hx : Settled owners now key x) (hkey : key.text ≠ "")
    {t : Turn} (hstamp : t.timestamp = now) (hnow : now.Valid) {y : Session}
    (hy : y = { x with transcript := x.transcript ++ [t], updatedAt := now })
    (hrecord : d.recordTurn y t = (.ok (), d')) :
    Touches (fileName key) d d' ∧
      ∃ content, d'.entries.get? (fileName key) = some (.file content) ∧ Says content y := by
  have hown : y.key = key := by
    rw [hy]
    exact hx.own
  obtain ⟨htouches, hfile⟩ := recordTurn_ok (hown ▸ hkey) hrecord
  rw [hown] at htouches hfile
  rcases hfile with ⟨before, hbefore, hfile⟩ | hfile
  · have hpresent : key ∉ gone := by
      intro hmem
      rw [hmirrors.missing key hmem] at hbefore
      cases hbefore
    obtain ⟨content, hcontent, hsaid⟩ := hmirrors.file key x hget hpresent
    rw [hbefore] at hcontent
    cases hcontent
    have hextended := hsaid.extend (t := t) (hstamp ▸ hx.updated)
    rw [hstamp, ← hy] at hextended
    exact ⟨htouches, _, hfile, hextended⟩
  · have hassemble : assemble y y.transcript = y := by
      rw [hy]
      exact assemble_extend hstamp
    have hupdated : y.updatedAt.Valid := by
      rw [hy]
      exact hnow
    exact ⟨htouches, _, hfile, says_text hupdated hassemble⟩

/-- **A turn is recorded, with its file back in place, or not at all.** -/
theorem append (h : Tidy owners s now gone) {t : Turn} (hstamp : t.timestamp = now)
    (hcontent : t.content.Storable) (hnow : now.Valid) :
    Tidy owners (s.append key t now).2 now
      (StoreRequest.missing gone (.append key t) (s.append key t now).1) := by
  obtain ⟨htended, d, hd, hmirrors⟩ := h
  rw [Store.append]
  cases hget : s.sessions.get? key with
  | none => exact ⟨htended, d, hd, hmirrors⟩
  | some x =>
    have hx := htended.settled key x hget
    have hkey := htended.text_ne (contains_of_get? hget)
    obtain ⟨y, hy⟩ : ∃ y : Session,
      y = { x with transcript := x.transcript ++ [t], updatedAt := now } := ⟨_, rfl⟩
    have hsettled : Settled owners now key y := hy ▸ hx.extend hstamp hcontent hnow
    dsimp only
    rw [Session.extend_eq hstamp hx.stamped, ← hy, hd]
    dsimp only
    split
    · rename_i d' hrecord
      obtain ⟨htouches, content, hfile, hsaid⟩ :=
        says_of_recordTurn hmirrors hget hx hkey hstamp hnow hy hrecord
      exact ⟨htended.set hsettled, d', rfl, hmirrors.set hkey htouches hfile hsaid⟩
    · rename_i e d' hrecord
      obtain ⟨htouches, hsame⟩ := recordTurn_error (hsettled.own ▸ hkey) hrecord
      rw [hsettled.own] at htouches hsame
      exact ⟨htended, d', rfl, hmirrors.touched htouches hsame⟩

/-- **A transcript is emptied, with the file written, or stays.** -/
theorem clear (h : Tidy owners s now gone) (hnow : now.Valid) :
    Tidy owners (s.clear key now).2 now
      (StoreRequest.missing gone (.clear key) (s.clear key now).1) := by
  obtain ⟨htended, d, hd, hmirrors⟩ := h
  rw [Store.clear]
  cases hget : s.sessions.get? key with
  | none => exact ⟨htended, d, hd, hmirrors⟩
  | some x =>
    have hx := htended.settled key x hget
    have hkey := htended.text_ne (contains_of_get? hget)
    obtain ⟨x', hx'⟩ : ∃ x' : Session, x' = { x with transcript := [], updatedAt := now } :=
      ⟨_, rfl⟩
    have hown : x'.key = key := by rw [hx']; exact hx.own
    have hsettled : Settled owners now key x' := hx' ▸ hx.clear hnow
    have hempty : x'.transcript = [] := by rw [hx']
    dsimp only
    rw [← hx', hd]
    dsimp only
    split
    · rename_i d' hwrite
      rw [writeSession, hown] at hwrite
      obtain ⟨htouches, hfile⟩ := replace_ok (counts_fileName hkey) hwrite
      exact ⟨htended.set hsettled, d', rfl, hmirrors.set hkey htouches hfile
        (says_text hsettled.storable.updatedAt (assemble_of_empty hempty))⟩
    · rename_i e d' hwrite
      rw [writeSession, hown] at hwrite
      obtain ⟨htouches, hsame⟩ := replace_error (counts_fileName hkey) hwrite
      exact ⟨htended, d', rfl, hmirrors.touched htouches hsame⟩

/-- The override that names a session is dropped after the session, if the system lets the
overrides be written.  No other override names it, since nobody else owns its key. -/
theorem forget (hneighbours : Neighbours owners) (htended : Tended owners sessions overrides now)
    {i : Identity} (howner : owners i) (howns : i.owns key) {d : Directory}
    (hmirrors : Mirrors (sessions.erase key) overrides gone d)
    (htaken : overrides.get? i = some key →
      d.refusal (.create (draftName overridesName)) = none ∧
        d.refusal (.rename (draftName overridesName) overridesName) = none) :
    Tidy owners
      (if overrides.get? i = some key then
        Store.dropOverride ⟨sessions.erase key, overrides, some d⟩ i
      else ⟨sessions.erase key, overrides, some d⟩) now gone := by
  have halone (j : Identity) (hj : overrides.get? j = some key) : j = i := by
    obtain ⟨hother, hothers, -⟩ := htended.switched j key hj
    exact hneighbours.apart j i key hother howner hothers howns
  split
  · rename_i hactive
    obtain ⟨hdrafted, hrenamed⟩ := htaken hactive
    obtain ⟨d', hwrite⟩ :=
      hmirrors.exists_writeOverrides hdrafted hrenamed (overrides.erase i)
    obtain ⟨htouches, hfile⟩ := replace_ok counts_overridesName hwrite
    have hreset := htended.reset i
    have hunnamed (j : Identity) : (overrides.erase i).get? j ≠ some key := by
      intro hj
      rw [Table.get?_erase] at hj
      split at hj
      · cases hj
      · rename_i hne
        exact hne (halone j hj)
    rw [Store.dropOverride]
    dsimp only
    rw [hwrite]
    exact ⟨hreset.erase hunnamed, d', rfl, hmirrors.switch hreset.distinct
      (hreset.nameable hneighbours) htouches hfile⟩
  · rename_i hinactive
    have hunnamed (j : Identity) : overrides.get? j ≠ some key := by
      intro hj
      rw [halone j hj] at hj
      exact hinactive hj
    exact ⟨htended.erase hunnamed, d, rfl, hmirrors⟩

/-- **A session is removed, with its file and the override that names it, or stays.** -/
theorem delete (hneighbours : Neighbours owners) (h : Tidy owners s now gone) {i : Identity}
    (howner : owners i) (raw : String) {d : Directory} (hd : s.disk = some d)
    (hunharmed : s.Unharmed d.refusal (.delete i raw)) :
    Tidy owners (s.delete i raw).2 now
      (StoreRequest.missing gone (.delete i raw) (s.delete i raw).1) := by
  obtain ⟨htended, d₀, hd₀, hmirrors⟩ := h
  rw [hd] at hd₀
  cases hd₀
  rw [Store.Unharmed] at hunharmed
  unfold Store.delete at hunharmed ⊢
  cases hlookup : s.lookup i raw with
  | error e => exact ⟨htended, d, hd, hmirrors⟩
  | ok key =>
    obtain ⟨howns, hstored⟩ := lookup_ok hlookup
    have hkey := htended.text_ne hstored
    rw [hlookup, hd] at hunharmed
    dsimp only at hunharmed
    rw [hd]
    dsimp only
    cases hremove : d.removeSession key with
    | error e => exact ⟨htended, d, hd, hmirrors⟩
    | ok d₁ =>
      rw [hremove] at hunharmed
      obtain ⟨hhonest, htaken⟩ := hunharmed key rfl
      obtain ⟨htouches, hfile⟩ := removeSession_ok hhonest hremove
      rw [← refusal_removeSession hremove] at htaken
      exact forget hneighbours htended howner howns (hmirrors.erase hkey htouches hfile) htaken

/-- **Every request preserves it.** -/
theorem answer (hneighbours : Neighbours owners) (h : Tidy owners s now gone)
    {r : StoreRequest} (hissued : r.IssuedBy owners) (hnow : now.Valid) (hstamped : r.Stamped now)
    {d : Directory} (hd : s.disk = some d) (hunharmed : s.Unharmed d.refusal r) :
    Tidy owners (Store.answer now r s).2 now (r.missing gone (Store.answer now r s).1) := by
  cases r with
  | create i new => exact h.create hissued new hnow
  | switch i name => exact h.switch hneighbours hissued name
  | reset i => exact h.reset hneighbours i
  | resolve i => exact h.resolve hissued hnow
  | append key t => exact h.append hstamped.1 hstamped.2 hnow
  | clear key => exact h.clear hnow
  | delete i name => exact h.delete hneighbours hissued name hd hunharmed
  | current | list | get | transcript | size => exact h

end Tidy

/-! ## Reopening -/

/-- An empty directory opens as a store without sessions. -/
theorem openAt_of_empty {d : Directory} (hempty : d.entries = .empty) :
    Store.openAt d = (.ok { disk := some d }, d) := by
  have hnone (name : String) : d.text? name = none := by
    rw [text?, hempty, Table.get?_empty]
  have hoverrides : d.overrides = .empty := by
    rw [Directory.overrides, hnone]
    rfl
  have hsessions : Store.loadSessions d = .empty := by
    have hfiles : d.sessions = [] := List.eq_nil_iff_forall_not_mem.2 fun y hy => by
      obtain ⟨name, -, hread⟩ := mem_sessions.1 hy
      rw [hnone] at hread
      cases hread
    rw [Store.loadSessions, hfiles]
    rfl
  have hsound := Store.openAt_of_sound (d := d) fun i key hkey => by
    rw [hoverrides] at hkey
    cases hkey
  rw [hsound, hoverrides, hsessions]

/-- An empty directory mirrors a store without sessions. -/
theorem tidy_opened {d d' : Directory} (hempty : d.entries = .empty)
    (hopen : Store.openAt d = (.ok s, d')) : Tidy owners s last [] := by
  have hnone (name : String) : d.entries.get? name = none := by
    rw [hempty]
    exact Table.get?_empty name
  have hoverrides : d.overrides = .empty := by
    rw [Directory.overrides, text?, hnone]
    rfl
  rw [openAt_of_empty hempty] at hopen
  cases hopen
  refine ⟨⟨fun _ _ h => absurd h (by simp), Table.distinct_empty, fun _ _ h => absurd h (by simp)⟩,
    d, rfl, fun _ h => absurd h (by simp [Table.contains]), fun _ h => absurd h List.not_mem_nil,
    fun _ _ h => absurd h (by simp), fun _ h => absurd h List.not_mem_nil,
    fun name _ hsome => absurd (hnone name) hsome, fun i => ?_, fun name hdir => ?_⟩
  · rw [hoverrides]
  · rw [hnone] at hdir
    cases hdir

/-- **Throughout its history the store is in order, and its directory mirrors it.** -/
theorem Kept.tidy (hneighbours : Neighbours owners) (h : Kept owners s last gone) :
    Tidy owners s last gone := by
  induction h with
  | opened last hempty hopen => exact tidy_opened hempty hopen
  | answered h refusal r now hissued hclock hnow hstamped hunharmed ih =>
    obtain ⟨d, hd, -⟩ := ih.mirrored
    have hunder := (ih.under refusal).mono hclock
    refine hunder.answer hneighbours hissued hnow hstamped (d := { d with refusal }) ?_ hunharmed
    rw [Store.under, hd]
    rfl
  | removed h key hkey ih =>
    obtain ⟨htended, d, hd, hmirrors⟩ := ih
    refine ⟨htended, _, ?_, hmirrors.lose hkey⟩
    rw [Store.withoutFile, hd]
    rfl

/-- **Reopening restores the store.**  The directory of a store opens, and what it opens as has
the same sessions, with their identities, titles, times and transcripts, and the same overrides.
Sessions whose files were taken away, and not written since, are missing with the overrides that
name them; to drop those, the system has to let the overrides be written. -/
theorem openAt_of_kept (hneighbours : Neighbours owners) (h : Kept owners s last gone)
    {d : Directory} (hd : s.disk = some d)
    (htaken : gone = [] ∨ ∀ action, d.refusal action = none) :
    ∃ s' d', Store.openAt d = (.ok s', d') ∧
      (∀ key, s'.sessions.get? key = if key ∈ gone then none else s.sessions.get? key) ∧
      ∀ i, s'.overrides.get? i = (s.overrides.get? i).filter (· ∉ gone) := by
  obtain ⟨htended, d₀, hd₀, hmirrors⟩ := h.tidy hneighbours
  rw [hd] at hd₀
  cases hd₀
  exact hmirrors.openAt (fun key x hx => (htended.settled key x hx).own)
    (fun key x hx => (htended.settled key x hx).storable)
    (fun i key hkey => (htended.switched i key hkey).2) htaken

/-- A turn recorded at noon. -/
theorem openAt_of_one_turn :
    let i : Identity := ⟨"cli", "local"⟩
    let noon : Timestamp := ⟨1709294400, 0⟩
    let free : FileAction → Option FileError := fun _ => none
    let resolved := (Store.answer noon (.resolve i) (Store.under { disk := some {} } free)).2
    let recorded := (Store.answer noon (.append i.defaultKey (.user "hi" noon))
      (resolved.under free)).2
    Neighbours (· = i) ∧ Kept (· = i) recorded noon [] ∧
      ∃ d s' d', recorded.disk = some d ∧ Store.openAt d = (.ok s', d') ∧
        (s'.sessions.get? i.defaultKey).map (·.transcript.length) = some 1 := by
  intro i noon free resolved recorded
  have hneighbours : Neighbours (· = i) := by
    refine ⟨fun j hj => ?_, fun j k key hj hk _ _ => hj.trans hk.symm⟩
    rw [hj]
    exact ⟨by decide, by decide, by decide⟩
  have hnoon : noon.Valid := ⟨by decide, by decide⟩
  have hle : noon.le noon := Timestamp.le_refl noon
  have hopened : Kept (· = i) { disk := some {} } noon [] :=
    .opened noon rfl (openAt_of_empty rfl)
  have hresolved : Kept (· = i) resolved noon [] := by
    have h := hopened.answered free (.resolve i) noon rfl hle hnoon trivial trivial
    rw [StoreRequest.missing_nil] at h
    exact h
  have hrecorded : Kept (· = i) recorded noon [] := by
    have h := hresolved.answered free (.append i.defaultKey (.user "hi" noon)) noon trivial hle
      hnoon ⟨rfl, trivial⟩ trivial
    rw [StoreRequest.missing_nil] at h
    exact h
  obtain ⟨-, d, hd, -⟩ := hrecorded.tidy hneighbours
  obtain ⟨s', d', hopen, hsessions, -⟩ := openAt_of_kept hneighbours hrecorded hd (.inl rfl)
  have hlength : (recorded.sessions.get? i.defaultKey).map (·.transcript.length) = some 1 := by
    decide +kernel
  have hsame : s'.sessions.get? i.defaultKey = recorded.sessions.get? i.defaultKey :=
    (hsessions i.defaultKey).trans (if_neg List.not_mem_nil)
  refine ⟨hneighbours, hrecorded, d, s', d', hd, hopen, ?_⟩
  rw [hsame]
  exact hlength

end Parley
