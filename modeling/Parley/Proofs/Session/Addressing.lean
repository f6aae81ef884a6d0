import Parley.Proofs.Session.Chronology
import Parley.Proofs.Session.Listing
import Parley.Proofs.Session.Naming
import Parley.Proofs.Session.Switched
import Parley.Proofs.Text.Slug
import Parley.Proofs.Time.Stamps

/-!
# Keys as addresses

A key that a listing shows is meant to be handed back: by it a session is switched in and removed.
Looking up trims what it is given, though, and a key is made of the chat as the client calls it,
which is not trimmed.  So a key that ends in white space is not found as it is.

Keys come about in three ways.  A name that is asked for is trimmed (`not_endsBlank_nameKey`), and
a generated key ends in its stamp or its number (`not_endsBlank_vacantKey`); only the key of a
default session may end in white space, when the chat does.  What is looked up never does, so that
the key of such a session leads nowhere and is never switched in, whatever clients ask of the store
(`OfClients.answer`).  All other keys address their sessions (`addresses_iff`).
-/

namespace Parley

/-- The key ends in white space. -/
def SessionKey.EndsBlank (key : SessionKey) : Prop := Text.EndsBlank key.text.toList

/-! ## Clients -/

namespace Identity

variable {i : Identity} {key : SessionKey}

/-- The identities of chats that clients may name. -/
def IsClient (i : Identity) : Prop := i.channel = "ws" ∧ i.chat.isAllBlank = false

/-- **The identities of clients are those that the parameters of a call can name.** -/
theorem isClient_iff : i.IsClient ↔ ∃ params, Gateway.Rpc.identity params = .ok i := by
  constructor
  · obtain ⟨channel, chat⟩ := i
    rintro ⟨rfl, hchat⟩
    have hfound : ((Json.obj [("chat", .str chat)]).field "chat").str?.filter (!·.isAllBlank) =
        some chat := by
      show (some chat).filter _ = _
      rw [Option.filter_some, hchat]
      rfl
    refine ⟨.obj [("chat", .str chat)], ?_⟩
    rw [Gateway.Rpc.identity, Gateway.Rpc.required, hfound]
    rfl
  · rintro ⟨params, hparams⟩
    rw [Gateway.Rpc.identity, Gateway.Rpc.required] at hparams
    split at hparams
    · rename_i hchat
      cases hparams
      have hkept := (Option.filter_eq_some_iff.1 hchat).2
      exact ⟨rfl, Bool.not_eq_true' _ ▸ hkept⟩
    · cases hparams

/-- A key of a client that does not end in white space is what it is when it is trimmed. -/
theorem trimBlank_of_owns (hi : i.IsClient) (howns : i.owns key) (hend : ¬ key.EndsBlank) :
    key.text.trimBlank = key.text := by
  obtain ⟨rest, hrest⟩ := prefix_of_owns howns
  rw [toList_name, hi.1] at hrest
  have hfirst : ∀ c ∈ key.text.toList.head?, Text.isBlank c = false := by
    rw [← hrest]
    rintro c ⟨⟩
    decide
  rw [String.trimBlank, Text.trim_eq_self hfirst hend, String.ofList_toList]

/-- Such a key stands for itself. -/
theorem nameKey_of_owns (hi : i.IsClient) (howns : i.owns key) (hend : ¬ key.EndsBlank) :
    Store.nameKey i key.text.trimBlank = key := by
  have hcolon : key.text.toList.contains ':' := by
    obtain ⟨rest, hrest⟩ := prefix_of_owns howns
    rw [List.contains_iff_mem, ← hrest, toList_name]
    exact List.mem_append_left _ (List.mem_append_right _ List.mem_cons_self)
  rw [trimBlank_of_owns hi howns hend, Store.nameKey, if_pos hcolon]

/-- The key of a default session ends as the chat does. -/
theorem endsBlank_of_defaultKey (hi : i.IsClient) (h : i.defaultKey.EndsBlank) :
    Text.EndsBlank i.chat.toList := by
  have hname : i.defaultKey.text.toList = (i.channel.toList ++ [':']) ++ i.chat.toList := by
    rw [defaultKey, toList_name, List.append_assoc]
    rfl
  have hchat : i.chat.toList ≠ [] := by
    intro hnil
    have hblank := hi.2
    rw [String.isAllBlank, hnil] at hblank
    cases hblank
  rw [SessionKey.EndsBlank, hname] at h
  exact (Text.endsBlank_append hchat).1 h

end Identity

namespace Store

variable {i : Identity} {s t : Store} {raw : String} {key other : SessionKey} {new : NewSession}
  {now : Timestamp} {r : StoreRequest} {sessions : Table SessionKey Session}
  {overrides : Table Identity SessionKey}

/-! ## Addresses -/

/-- The key of a session is an address: handed back as it is, it switches the session in, and it
removes the session and no other. -/
structure Addresses (s : Store) (i : Identity) (key : SessionKey) : Prop where
  switch : ∃ a t, s.switch i key.text = (.ok a, t) ∧ a.key = key ∧ t.overrides.get? i = some key
  delete : ∃ t, s.delete i key.text = (.ok key, t) ∧
    ∀ other, t.sessions.get? other = if other = key then none else s.sessions.get? other

/-- In memory, a name that leads to a session under a key by that very key makes it an address. -/
theorem LeadsTo.addresses (h : s.LeadsTo i key.text key) (hdisk : s.disk = none) :
    s.Addresses i key := by
  refine ⟨h.switch fun d hd => ?_, h.delete fun d hd => ?_⟩
  · rw [hdisk] at hd
    cases hd
  · rw [hdisk] at hd
    cases hd

/-- **A key of a client that does not end in white space is an address**, in memory. -/
theorem addresses_of_contains (ho : s.Orderly) (hdisk : s.disk = none) (hi : i.IsClient)
    (howns : i.owns key) (hthere : s.sessions.contains key) (hend : ¬ key.EndsBlank) :
    s.Addresses i key := by
  have hname := Identity.nameKey_of_owns hi howns hend
  have hleads : s.LeadsTo i key.text (nameKey i key.text.trimBlank) := by
    refine leadsTo_nameKey ho ?_ ?_
    · rw [hname]
      exact howns
    · rw [hname]
      exact hthere
  rw [hname] at hleads
  exact hleads.addresses hdisk

/-! ## How keys end -/

/-- A name does not stand for a key that ends in white space. -/
theorem not_endsBlank_nameKey (i : Identity) (raw : String) :
    ¬ (nameKey i raw.trimBlank).EndsBlank := by
  rw [nameKey]
  split
  · rw [SessionKey.EndsBlank, String.trimBlank, String.toList_ofList]
    exact Text.not_endsBlank_trim _
  · rw [SessionKey.EndsBlank, Identity.keyNamed, String.toList_append,
      Text.endsBlank_append (Text.slug_ne_nil _)]
    exact Text.not_endsBlank_of_forall fun c hc => Text.isBlank_of_mem_slug hc

theorem not_endsBlank_numbered (i : Identity) (now : Timestamp) (n : Nat) :
    ¬ (numbered (generatedBase i now) n).EndsBlank := by
  rw [SessionKey.EndsBlank, numbered]
  split
  · rw [generatedBase, String.toList_append, Text.endsBlank_append now.keyStamp_ne_nil]
    exact Text.not_endsBlank_of_forall fun c hc => (Timestamp.mem_keyStamp hc).isBlank
  · have hdigits : (toString n).toList = Nat.toDigits 10 n := Nat.toList_repr
    rw [String.toList_append, hdigits, Text.endsBlank_append Nat.toDigits_ne_nil]
    exact Text.not_endsBlank_of_forall fun c hc =>
      Text.isBlank_of_isDigit (Nat.isDigit_of_mem_toDigits (by decide) (by decide) hc)

/-- A generated key does not end in white space. -/
theorem not_endsBlank_vacantKey (s : Store) (i : Identity) (now : Timestamp) :
    ¬ (s.vacantKey i now).EndsBlank :=
  not_endsBlank_numbered i now _

/-- A name is looked up to the key that it stands for. -/
theorem eq_nameKey_of_lookup (h : s.lookup i raw = .ok key) : key = nameKey i raw.trimBlank := by
  rw [lookup_eq] at h
  split at h
  · exact (Except.ok.inj h).symm
  · cases h

/-- So a name is read by which a session is created. -/
theorem eq_nameKey_of_requestedKey (h : requestedKey i raw = .ok key) : key = nameKey i raw := by
  rw [requestedKey_eq] at h
  split at h
  · exact (Except.ok.inj h).symm
  · cases h

theorem not_endsBlank_of_lookup (h : s.lookup i raw = .ok key) : ¬ key.EndsBlank := by
  rw [eq_nameKey_of_lookup h]
  exact not_endsBlank_nameKey i raw

/-- What is removed had been looked up. -/
theorem lookup_of_delete (h : s.delete i raw = (.ok key, t)) : s.lookup i raw = .ok key := by
  rcases s.delete_cases i raw with ⟨e, heq⟩ | ⟨own, disk, hlookup, -, heq⟩
  · cases heq.symm.trans h
  · cases heq.symm.trans h
    exact hlookup

/-- What is switched in had been looked up. -/
theorem lookup_of_switch (ho : s.Orderly) {a : Summary} (h : s.switch i raw = (.ok a, t)) :
    s.lookup i raw = .ok a.key := by
  rcases s.switch_cases i raw with ⟨e, s', heq, -⟩ | ⟨key, x, disk, hlookup, hx, -, heq⟩
  · cases heq.symm.trans h
  · cases heq.symm.trans h
    rw [hlookup]
    exact congrArg Except.ok (ho.own key x hx).symm

/-! ## Where keys come from -/

theorem contains_createAt {title : Option String} {allowExisting : Bool}
    (h : (s.createAt i key title allowExisting now).2.sessions.contains other) :
    s.sessions.contains other ∨ other = key := by
  rw [createAt] at h
  rcases s.insertVacant_cases (.new key i title now) with
    ⟨e, s', heq, huntouched⟩ | ⟨heq, -⟩ | ⟨disk, -, heq, -⟩ <;> rw [heq] at h <;> dsimp only at h
  · rw [huntouched.sessions] at h
    exact .inl h
  · exact .inl h
  · exact (Table.contains_set_iff.1 h).symm

/-- Creating refuses at once, or goes on with a key of the identity that does not end in white
space. -/
theorem create_cases (s : Store) (i : Identity) (new : NewSession) (now : Timestamp) :
    (∃ e, s.create i new now = (.error e, s)) ∨
      ∃ key allowExisting, i.owns key ∧ ¬ key.EndsBlank ∧
        s.create i new now = s.createAt i key new.titleOf? allowExisting now := by
  rw [create]
  split
  · exact .inr ⟨_, false, owns_vacantKey s i now, not_endsBlank_vacantKey s i now, rfl⟩
  · rename_i name hname
    split
    · exact .inl ⟨_, rfl⟩
    · rename_i key hkey
      -- the name is what trimming has left of one
      obtain ⟨trimmed, htrimmed, hkept⟩ := Option.bind_eq_some_iff.1 hname
      obtain ⟨raw, -, rfl⟩ := Option.map_eq_some_iff.1 htrimmed
      have howns := owns_requestedKey hkey
      rw [← String.eq_of_nonempty? hkept] at hkey
      refine .inr ⟨key, new.allowExisting, howns, ?_, rfl⟩
      rw [eq_nameKey_of_requestedKey hkey]
      exact not_endsBlank_nameKey i raw

/-- What is created has a key that does not end in white space. -/
theorem contains_create (h : (s.create i new now).2.sessions.contains key) :
    s.sessions.contains key ∨ ¬ key.EndsBlank := by
  rcases s.create_cases i new now with ⟨e, heq⟩ | ⟨own, allowExisting, -, hend, heq⟩ <;>
    rw [heq] at h
  · exact .inl h
  · refine (contains_createAt h).imp_right fun hown => ?_
    rw [hown]
    exact hend

/-- A session that creating answers is there, is the identity's own, and has such a key. -/
theorem reported_of_create (ho : s.Orderly) {a : Summary}
    (h : s.create i new now = (.ok a, t)) :
    i.owns a.key ∧ t.sessions.contains a.key ∧ ¬ a.key.EndsBlank := by
  rcases s.create_cases i new now with ⟨e, heq⟩ | ⟨key, allowExisting, howns, hend, heq⟩
  · rw [heq] at h
    cases h
  · have hcreated := created_createAt ho howns new.titleOf? allowExisting now
    rw [← heq, h] at hcreated
    cases hcreated with
    | there _ hthere hkey =>
      rw [hkey]
      exact ⟨howns, hthere, hend⟩

/-- Only creating and resolving make sessions, and resolving makes the default session. -/
theorem contains_of_moves (hmoves : Moves now s r sessions overrides)
    (h : sessions.contains key) :
    s.sessions.contains key ∨ (∃ i new, r = .create i new) ∨
      ∃ i, r = .resolve i ∧ key = i.defaultKey := by
  cases hmoves with
  | stay | switch | reset => exact .inl h
  | create => exact .inr (.inl ⟨_, _, rfl⟩)
  | @resolve i =>
    rcases Table.contains_set_iff.1 h with rfl | hold
    · exact .inr (.inr ⟨i, rfl, rfl⟩)
    · exact .inl hold
  | append hthere | clear hthere =>
    rcases Table.contains_set_iff.1 h with rfl | hold
    · exact .inl (Option.isSome_iff_exists.2 ⟨_, hthere⟩)
    · exact .inl hold
  | delete => exact .inl (Table.contains_erase_iff.1 h).2

/-- A session that a request makes has a key that does not end in white space, unless it is the
default session of who asks. -/
theorem contains_answer (h : (answer now r s).2.sessions.contains key) :
    s.sessions.contains key ∨ ¬ key.EndsBlank ∨ ∃ i, r = .resolve i ∧ key = i.defaultKey := by
  rcases contains_of_moves (moves_answer now r s) h with hold | ⟨i, new, rfl⟩ | hdefault
  · exact .inl hold
  · exact (contains_create h).imp_right .inl
  · exact .inr (.inr hdefault)

theorem get?_overrides_of_moves (hmoves : Moves now s r sessions overrides)
    (h : overrides.get? i = some key) :
    s.overrides.get? i = some key ∨ ∃ j name, r = .switch j name := by
  cases hmoves with
  | stay | create | resolve | append | clear => exact .inl h
  | switch => exact .inr ⟨_, _, rfl⟩
  | reset =>
    rw [Table.get?_erase] at h
    split at h
    · cases h
    · exact .inl h
  | delete =>
    split at h
    · rw [Table.get?_erase] at h
      split at h
      · cases h
      · exact .inl h
    · exact .inl h

theorem get?_overrides_switch {j : Identity}
    (h : (s.switch j raw).2.overrides.get? i = some key) :
    s.overrides.get? i = some key ∨ ¬ key.EndsBlank := by
  rcases s.switch_cases j raw with
    ⟨e, s', heq, huntouched⟩ | ⟨named, x, disk, hlookup, -, -, heq⟩ <;> rw [heq] at h
  · rw [huntouched.overrides] at h
    exact .inl h
  · dsimp only at h
    rw [Table.get?_set] at h
    split at h
    · cases h
      exact .inr (not_endsBlank_of_lookup hlookup)
    · exact .inl h

/-- What a request switches in has a key that does not end in white space. -/
theorem get?_overrides_answer (h : (answer now r s).2.overrides.get? i = some key) :
    s.overrides.get? i = some key ∨ ¬ key.EndsBlank := by
  rcases get?_overrides_of_moves (moves_answer now r s) h with hold | ⟨j, name, rfl⟩
  · exact .inl hold
  · have hswitch : (answer now (.switch j name) s).2 = (s.switch j name).2 := rfl
    rw [hswitch] at h
    exact get?_overrides_switch h

/-! ## Histories -/

/-- What clients make of a store in memory, as far as it goes for keys that end in white space: such
a key is that of the default session of a client, and is not switched in. -/
structure OfClients (s : Store) : Prop where
  orderly : s.Orderly
  disk : s.disk = none
  named : ∀ key, s.sessions.contains key → key.EndsBlank →
    ∃ j : Identity, j.IsClient ∧ key = j.defaultKey
  switched : ∀ i key, s.overrides.get? i = some key → ¬ key.EndsBlank

theorem ofClients_inMemory : inMemory.OfClients :=
  ⟨orderly_inMemory, rfl, fun _ hkey => absurd hkey Bool.false_ne_true, nofun⟩

/-- **A request of a client keeps it so.** -/
theorem OfClients.answer (h : s.OfClients) (hissued : r.IssuedBy Identity.IsClient) :
    (Store.answer now r s).2.OfClients := by
  refine ⟨h.orderly.answer now r, disk_answer h.disk now r, fun key hkey hend => ?_,
    fun i key hkey => ?_⟩
  · rcases contains_answer hkey with hold | hother | ⟨j, rfl, hdefault⟩
    · exact h.named key hold hend
    · exact absurd hend hother
    · exact ⟨j, hissued, hdefault⟩
  · rcases get?_overrides_answer hkey with hold | hother
    · exact h.switched i key hold
    · exact hother

theorem OfClients.after {history : List (Timestamp × StoreRequest)} (h : s.OfClients)
    (hissued : ∀ q ∈ history, q.2.IssuedBy Identity.IsClient) : (s.after history).OfClients := by
  induction history generalizing s with
  | nil => exact h
  | cons q rest ih =>
    obtain ⟨now, r⟩ := q
    obtain ⟨hfirst, hrest⟩ := List.forall_mem_cons.1 hissued
    exact ih (h.answer hfirst) hrest

/-! ## Handing keys back -/

/-- A key that ends in white space leads nowhere: no name, of whomever, switches a session in under
it or removes one. -/
def Unaddressed (s : Store) (key : SessionKey) : Prop :=
  ∀ (j : Identity) (raw : String),
    (∀ a t, s.switch j raw = (.ok a, t) → a.key ≠ key) ∧ ∀ t, s.delete j raw ≠ (.ok key, t)

theorem unaddressed_of_endsBlank (ho : s.Orderly) (hend : key.EndsBlank) : s.Unaddressed key := by
  refine fun j raw => ⟨?_, fun t hdelete => ?_⟩
  · rintro a t hswitch rfl
    exact not_endsBlank_of_lookup (lookup_of_switch ho hswitch) hend
  · exact not_endsBlank_of_lookup (lookup_of_delete hdelete) hend

theorem Unaddressed.not_addresses (h : s.Unaddressed key) : ¬ s.Addresses i key := by
  rintro ⟨-, t, hdelete, -⟩
  exact (h i key.text).2 t hdelete

/-- The session that is switched in is there, and is the identity's own, under the key of the
override. -/
theorem reported_of_current (ho : s.Orderly) {a : Summary} (h : s.current i = some a) :
    i.owns a.key ∧ s.sessions.contains a.key ∧ s.overrides.get? i = some a.key := by
  obtain ⟨key, hkey, hsession⟩ := Option.bind_eq_some_iff.1 h
  obtain ⟨x, hx, hsummary⟩ := Option.bind_eq_some_iff.1 hsession
  cases hsummary
  obtain rfl := ho.own key x hx
  exact ⟨ho.switched i _ hkey, Option.isSome_iff_exists.2 ⟨x, hx⟩, hkey⟩

/-- **The keys that address their sessions are those that do not end in white space.**  Let clients
ask anything of a store in memory.  A key that is listed for a client then is an address, or it
leads nowhere; and it leads nowhere just when it ends in white space, which only the key of the
default session of a client does, whose chat ends so.  The key of the session that is switched in is
an address, and so is the key of a session that is created, once it is. -/
theorem addresses_iff {history : List (Timestamp × StoreRequest)}
    (hissued : ∀ q ∈ history, q.2.IssuedBy Identity.IsClient) (hi : i.IsClient) :
    let s := inMemory.after history
    (∀ a ∈ s.list i, (s.Addresses i a.key ↔ ¬ a.key.EndsBlank)) ∧
      (∀ a ∈ s.list i, a.key.EndsBlank → s.Unaddressed a.key ∧
        ∃ j : Identity, j.IsClient ∧ Text.EndsBlank j.chat.toList ∧ a.key = j.defaultKey) ∧
      (∀ a, s.current i = some a → s.Addresses i a.key) ∧
      ∀ new now a t, s.create i new now = (.ok a, t) → t.Addresses i a.key := by
  intro s
  have hs : s.OfClients := ofClients_inMemory.after hissued
  have hlisted (a : Summary) (ha : a ∈ s.list i) : i.owns a.key ∧ s.sessions.contains a.key :=
    (mem_keys_list_iff hs.orderly).1 (List.mem_map_of_mem ha)
  refine ⟨fun a ha => ⟨fun haddresses hend => ?_, fun hend => ?_⟩, fun a ha hend => ?_,
    fun a ha => ?_, fun new now a t hcreate => ?_⟩
  · exact (unaddressed_of_endsBlank hs.orderly hend).not_addresses haddresses
  · obtain ⟨howns, hthere⟩ := hlisted a ha
    exact addresses_of_contains hs.orderly hs.disk hi howns hthere hend
  · obtain ⟨j, hj, hkey⟩ := hs.named a.key (hlisted a ha).2 hend
    refine ⟨unaddressed_of_endsBlank hs.orderly hend, j, hj, ?_, hkey⟩
    rw [hkey] at hend
    exact Identity.endsBlank_of_defaultKey hj hend
  · obtain ⟨howns, hthere, hnamed⟩ := reported_of_current hs.orderly ha
    exact addresses_of_contains hs.orderly hs.disk hi howns hthere (hs.switched i _ hnamed)
  · obtain ⟨howns, hthere, hend⟩ := reported_of_create hs.orderly hcreate
    have ht : t.OfClients := by
      have hanswered : (answer now (.create i new) s).2.OfClients := hs.answer hi
      rw [answer, hcreate] at hanswered
      exact hanswered
    exact addresses_of_contains ht.orderly ht.disk hi howns hthere hend

/-- **A chat that ends in a space** has two sessions: the one with a name is an address, and is
switched in by its key; the default session is not. -/
theorem addresses_iff_of_spaced_chat :
    let i : Identity := ⟨"ws", "a "⟩
    let noon : Timestamp := ⟨1709294400, 0⟩
    let history : List (Timestamp × StoreRequest) :=
      [(noon, .resolve i), (noon, .create i { key := some "b" }), (noon, .switch i "ws:a :b")]
    let s := inMemory.after history
    (∀ q ∈ history, q.2.IssuedBy Identity.IsClient) ∧ i.IsClient ∧
      s.Addresses i ⟨"ws:a :b"⟩ ∧ s.Unaddressed ⟨"ws:a "⟩ ∧
      ∃ a b, s.current i = some a ∧ a.key = ⟨"ws:a :b"⟩ ∧ b ∈ s.list i ∧ b.key = ⟨"ws:a "⟩ := by
  intro i noon history s
  have hi : i.IsClient := ⟨rfl, by decide +kernel⟩
  have hissued : ∀ q ∈ history, q.2.IssuedBy Identity.IsClient :=
    List.forall_mem_cons.2 ⟨hi, List.forall_mem_cons.2 ⟨hi, List.forall_mem_singleton.2 hi⟩⟩
  obtain ⟨-, hblank, hcurrent, -⟩ := addresses_iff hissued hi
  have hnamed : s.current i =
      some ⟨⟨"ws:a :b"⟩, "Session 2024-03-01 12:00", noon, noon, 0, true⟩ := by decide +kernel
  have hdefault : ⟨⟨"ws:a "⟩, "Session 2024-03-01 12:00", noon, noon, 0, false⟩ ∈ s.list i := by
    rw [list, List.mem_mergeSort]
    decide +kernel
  have hend : (⟨"ws:a "⟩ : SessionKey).EndsBlank := ⟨' ', rfl, rfl⟩
  exact ⟨hissued, hi, hcurrent _ hnamed, (hblank _ hdefault hend).1, _, _, hnamed, rfl, hdefault,
    rfl⟩

/-- **The default session of such a chat is listed, and not found by its key.** -/
theorem not_addresses_of_spaced_chat :
    let i : Identity := ⟨"ws", "a "⟩
    let noon : Timestamp := ⟨1709294400, 0⟩
    let history : List (Timestamp × StoreRequest) := [(noon, .resolve i)]
    let s := inMemory.after history
    (∀ q ∈ history, q.2.IssuedBy Identity.IsClient) ∧ i.IsClient ∧
      ∃ a ∈ s.list i, a.key = ⟨"ws:a "⟩ ∧ ¬ s.Addresses i a.key ∧
        (s.switch i a.key.text).1 = .error (.sessionNotFound "ws:a") ∧
        (s.delete i a.key.text).1 = .error (.sessionNotFound "ws:a") := by
  intro i noon history s
  have hi : i.IsClient := ⟨rfl, by decide +kernel⟩
  have hissued : ∀ q ∈ history, q.2.IssuedBy Identity.IsClient := List.forall_mem_singleton.2 hi
  have hlisted : ⟨⟨"ws:a "⟩, "Session 2024-03-01 12:00", noon, noon, 0, false⟩ ∈ s.list i := by
    rw [list, List.mem_mergeSort]
    decide +kernel
  have hswitch : (s.switch i "ws:a ").1 = .error (.sessionNotFound "ws:a") := by decide +kernel
  have hdelete : (s.delete i "ws:a ").1 = .error (.sessionNotFound "ws:a") := by decide +kernel
  refine ⟨hissued, hi, _, hlisted, rfl, ?_, hswitch, hdelete⟩
  rintro ⟨⟨a, t, hswitched, -⟩, -⟩
  rw [hswitched] at hswitch
  cases hswitch

end Store

end Parley
