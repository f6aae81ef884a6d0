import Parley.Proofs.Session.Effects

/-!
# What overrides name

An override names a session that is there and is the identity's own (`sound_of_shared`).  So it is
in memory, and so it is when a directory was opened, whatever its files say; and every request keeps
it so, whatever the directory refuses.  Only a deletion takes a session away, and then the override
of the identity that asks goes with it; another identity could have it switched in only if it owned
the key as well.

Therefore an identity talks to the session that it has switched in, or else to its default session,
which is there then, and stays with it.
-/

namespace Parley

/-- The request is made by one of the identities, if it is made by an identity at all. -/
def StoreRequest.IssuedBy (owners : Identity → Prop) : StoreRequest → Prop
  | .create i _ | .switch i _ | .reset i | .resolve i | .current i | .list i | .delete i _ =>
    owners i
  | .get _ | .transcript _ | .append .. | .clear _ | .size => True

namespace Store

/-- Every override is of one of the identities, and names a session that is there and is the
identity's own. -/
def Sound (owners : Identity → Prop) (sessions : Table SessionKey Session)
    (overrides : Table Identity SessionKey) : Prop :=
  ∀ i key, overrides.get? i = some key → owners i ∧ i.owns key ∧ sessions.contains key

/-- A store that some identities share: whoever makes a request or has an override when a directory
is opened is one of them. -/
inductive Shared (owners : Identity → Prop) : Store → Prop
  | inMemory : Shared owners inMemory
  /-- The directory may hold anything. -/
  | opened {d d' : Directory} {s : Store} (hopen : openAt d = (.ok s, d'))
      (howners : ∀ i, s.overrides.contains i → owners i) : Shared owners s
  | answered {s : Store} (h : Shared owners s) (now : Timestamp) (r : StoreRequest)
      (hissued : r.IssuedBy owners) : Shared owners (answer now r s).2
  /-- Files appear and vanish, and the system refuses other actions than before. -/
  | disturbed {s : Store} {d : Directory} (h : Shared owners s) (hdisk : s.disk = some d)
      (d' : Directory) : Shared owners { s with disk := some d' }

variable {owners : Identity → Prop} {i : Identity} {s s' : Store} {key : SessionKey}
  {now : Timestamp} {sessions : Table SessionKey Session} {overrides : Table Identity SessionKey}

/-! ## Steps -/

theorem Sound.set (h : Sound owners sessions overrides) (key : SessionKey) (x : Session) :
    Sound owners (sessions.set key x) overrides := by
  intro i other hother
  obtain ⟨howner, howns, hthere⟩ := h i other hother
  exact ⟨howner, howns, Table.contains_set_iff.2 (.inr hthere)⟩

theorem Sound.reset (h : Sound owners sessions overrides) (i : Identity) :
    Sound owners sessions (overrides.erase i) := by
  intro j other hother
  rw [Table.get?_erase] at hother
  split at hother
  · cases hother
  · exact h j other hother

theorem Sound.switch (h : Sound owners sessions overrides) (howner : owners i)
    (howns : i.owns key) (hthere : sessions.contains key) :
    Sound owners sessions (overrides.set i key) := by
  intro j other hother
  rw [Table.get?_set] at hother
  split at hother
  · rename_i hj
    cases hother
    rw [hj]
    exact ⟨howner, howns, hthere⟩
  · exact h j other hother

/-- A session may go that no override names. -/
theorem Sound.erase (h : Sound owners sessions overrides)
    (hunnamed : ∀ j, overrides.get? j ≠ some key) :
    Sound owners (sessions.erase key) overrides := by
  intro j other hother
  obtain ⟨howner, howns, hthere⟩ := h j other hother
  refine ⟨howner, howns, Table.contains_erase_iff.2 ⟨?_, hthere⟩⟩
  rintro rfl
  exact hunnamed j hother

/-- **Every change keeps the overrides sound**, if no two of the identities own a key in common. -/
theorem sound_of_moves (hapart : ∀ i j, owners i → owners j → i ≠ j → i.Apart j)
    {r : StoreRequest} (hissued : r.IssuedBy owners) (h : Sound owners s.sessions s.overrides)
    (hmoves : Moves now s r sessions overrides) : Sound owners sessions overrides := by
  cases hmoves with
  | stay => exact h
  | create | resolve | append | clear => exact h.set _ _
  | switch howns hthere => exact h.switch hissued howns hthere
  | reset => exact h.reset _
  | @delete i name key howns hthere =>
    -- whoever has the session switched in owns its key, as the one who deletes it does
    have hself (j : Identity) (hj : s.overrides.get? j = some key) : j = i := by
      obtain ⟨howner, hjowns, -⟩ := h j key hj
      by_contra hne
      exact hapart j i howner hissued hne key hjowns howns
    split_ifs with hnamed
    · refine (h.reset i).erase fun j hj => ?_
      rw [Table.get?_erase] at hj
      split_ifs at hj with hij
      exact hij (hself j hj)
    · refine h.erase fun j hj => hnamed ?_
      rw [← hself j hj]
      exact hj

theorem sound_opened {d d' : Directory} (hopen : openAt d = (.ok s, d'))
    (howners : ∀ i, s.overrides.contains i → owners i) :
    Sound owners s.sessions s.overrides := by
  intro i key hkey
  have howner : owners i := howners i (by rw [Table.contains, hkey]; rfl)
  rw [(openAt_ok hopen).1] at hkey ⊢
  rw [get?_sound (distinct_overrides d), Option.filter_eq_some_iff, Bool.and_eq_true] at hkey
  exact ⟨howner, hkey.2⟩

theorem Shared.sound (hapart : ∀ i j, owners i → owners j → i ≠ j → i.Apart j)
    (h : Shared owners s) : Sound owners s.sessions s.overrides := by
  induction h with
  | inMemory => exact nofun
  | opened hopen howners => exact sound_opened hopen howners
  | answered _ now r hissued ih => exact sound_of_moves hapart hissued ih (moves_answer now r _)
  | disturbed _ _ _ ih => exact ih

/-! ## Talking -/

theorem resolve_of_switched (hswitched : s.overrides.get? i = some key)
    (hthere : s.sessions.contains key) (now : Timestamp) : s.resolve i now = (.ok key, s) := by
  have hfound : (s.overrides.get? i).filter s.sessions.contains = some key := by
    rw [hswitched]
    exact Option.filter_eq_some_iff.2 ⟨rfl, hthere⟩
  rw [resolve, hfound]

theorem resolve_of_default (hnone : s.overrides.get? i = none)
    (hthere : s.sessions.contains i.defaultKey) (now : Timestamp) :
    s.resolve i now = (.ok i.defaultKey, s) := by
  have hused : s.insertVacant (.new i.defaultKey i none now) = (.ok false, s) := by
    rw [insertVacant]
    exact if_pos hthere
  rw [resolve, hnone, hused]
  rfl

/-- **An override names a session that is there and is the identity's own**, if no two of the
identities own a key in common.  So an identity talks to the session that it has switched in, or
else to its default session; the session is there and is the identity's own, and stays so. -/
theorem sound_of_shared (hapart : ∀ i j, owners i → owners j → i ≠ j → i.Apart j)
    (h : Shared owners s) :
    (∀ i key, s.overrides.get? i = some key → i.owns key ∧ s.sessions.contains key) ∧
      ∀ i now key s', s.resolve i now = (.ok key, s') →
        key = (s.overrides.get? i).getD i.defaultKey ∧ i.owns key ∧ s'.sessions.contains key ∧
          ∀ later, s'.resolve i later = (.ok key, s') := by
  have hsound := h.sound hapart
  refine ⟨fun i key hkey => (hsound i key hkey).2, fun i now key s' hresolve => ?_⟩
  cases hswitched : s.overrides.get? i with
  | some other =>
    obtain ⟨-, howns, hthere⟩ := hsound i other hswitched
    rw [resolve_of_switched hswitched hthere] at hresolve
    cases hresolve
    exact ⟨rfl, howns, hthere, resolve_of_switched hswitched hthere⟩
  | none =>
    rw [resolve, hswitched] at hresolve
    rcases s.insertVacant_cases (.new i.defaultKey i none now) with
      ⟨e, t, heq, -⟩ | ⟨heq, hthere⟩ | ⟨disk, -, heq, -⟩ <;> rw [heq] at hresolve <;> cases hresolve
    · exact ⟨rfl, owns_defaultKey i, hthere, resolve_of_default hswitched hthere⟩
    · have hthere : (s.sessions.set i.defaultKey (.new i.defaultKey i none now)).contains
          i.defaultKey := Table.contains_set_iff.2 (.inl rfl)
      exact ⟨rfl, owns_defaultKey i, hthere, resolve_of_default hswitched hthere⟩

/-- One of two chats has its default session switched in. -/
theorem sound_of_two_chats :
    let i : Identity := ⟨"cli", "local"⟩
    let j : Identity := ⟨"ws", "1"⟩
    let owners (k : Identity) : Prop := k = i ∨ k = j
    let noon : Timestamp := ⟨1709294400, 0⟩
    let s := (answer noon (.switch i "cli:local") (answer noon (.resolve i) inMemory).2).2
    (∀ k l, owners k → owners l → k ≠ l → k.Apart l) ∧ Shared owners s ∧
      s.overrides.get? i = some i.defaultKey ∧
      (∀ k key, s.overrides.get? k = some key → k.owns key ∧ s.sessions.contains key) ∧
        ∀ k now key s', s.resolve k now = (.ok key, s') →
          key = (s.overrides.get? k).getD k.defaultKey ∧ k.owns key ∧ s'.sessions.contains key ∧
            ∀ later, s'.resolve k later = (.ok key, s') := by
  intro i j owners noon s
  have hij : i.Apart j := apart_iff.2 (by decide +kernel)
  have hapart : ∀ k l, owners k → owners l → k ≠ l → k.Apart l := by
    rintro k l (rfl | rfl) (rfl | rfl) hne
    · exact absurd rfl hne
    · exact hij
    · exact fun key hj hi => hij key hi hj
    · exact absurd rfl hne
  have howner : owners i := .inl rfl
  have hresolved : Shared owners (answer noon (.resolve i) inMemory).2 :=
    .answered .inMemory noon _ howner
  have hshared : Shared owners s := .answered hresolved noon (.switch i "cli:local") howner
  exact ⟨hapart, hshared, by decide +kernel, sound_of_shared hapart hshared⟩

end Store

end Parley
