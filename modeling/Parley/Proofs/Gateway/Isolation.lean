import Parley.Gateway.Rpc
import Parley.Proofs.Courses
import Parley.Proofs.Session.Belongings

/-!
# How far chats are isolated

A chat is *isolated* from another when no session is listed for both, when no operation of the
first changes what there is of the second, and when no operation of the first comes to anything
else whatever there is of the second.  Chats are isolated, in every store that is reached, just
when neither owns the default session of the other (`isolated_iff`).

An operation is a program that asks the store.  Depending on the answers it makes other requests,
but all of them are for its own identity (`deals_of_issuedFor`).  So what one request changes, and
what its answer depends on, holds of the whole operation, by induction along its program
(`exists_serve`, `serve_congr`); and what belongs to another identity lies beyond, if the two share
no key (`isolated_of_apart`).

Chats of one channel that have no colon in their names share no key (`isolated_of_no_colon`).  A
chat with a colon may be named like a session of another chat: all that `a:b` has is also owned by
`a` (`not_isolated_of_colon`).
-/

namespace Parley.Gateway

open Agent (interface ask)
open Program

/-! ## States -/

/-- The stores that any requests lead to, at any instants, from a store in memory or from one that
was opened; the directory may be another whenever a request is made. -/
inductive Reached : Store → Prop
  | inMemory : Reached Store.inMemory
  | opened {d d' : Directory} {s : Store} (h : Store.openAt d = (.ok s, d')) : Reached s
  | asked {s : Store} (h : Reached s) (now : Timestamp) (r : StoreRequest) :
    Reached (Store.answer now r s).2
  | changed {s : Store} {d : Directory} (h : Reached s) (hdisk : s.disk = some d)
    (d' : Directory) : Reached { s with disk := some d' }

theorem Reached.orderly {s : Store} (h : Reached s) : s.Orderly := by
  induction h with
  | inMemory => exact Store.orderly_inMemory
  | opened hopen => exact Store.orderly_openAt hopen
  | asked _ now r ih => exact ih.answer now r
  | changed _ _ d' ih => exact ih.withDisk (some d')

/-! ## Operations -/

/-- The methods that are about the sessions of a chat. -/
def sessionMethods : List String :=
  ["chat.send", "chat.history", "sessions.list", "sessions.create", "sessions.switch",
    "sessions.reset", "sessions.current", "sessions.delete"]

/-- The programs of an identity's operations: what handles a call of a client, and any single
request for the identity, among them the one that makes its default session when it is missing. -/
inductive IssuedFor (i : Identity) : {α : Type} → Program interface α → Prop
  | call {setup : Agent.Setup} {method : String} {h : Rpc.Handler} {params : Json}
    (hmethod : method ∈ sessionMethods) (hhandler : Rpc.handler? setup method = some h)
    (hparams : Rpc.identity params = .ok i) : IssuedFor i (h params)
  | request {r : StoreRequest} (hr : r.IsFor i) : IssuedFor i (ask (.store r))

/-- Run a program that asks nothing but the store.  Its requests are answered at the instants of
`clock`, one after the other. -/
def serve {α : Type} : Program interface α → (Nat → Timestamp) → Store → Option (α × Store)
  | .done a, _, s => some (a, s)
  | .ask (.store r) next, clock, s =>
    let (a, s) := Store.answer (clock 0) r s
    serve (next a) (fun n => clock (n + 1)) s
  | .ask _ _, _, _ => none

/-- An identity deals with the store: it makes requests for itself, which are answered at any
instants. -/
def dealing (i : Identity) : Contract interface Store where
  allows _ r :=
    match r with
    | .store r => r.IsFor i
    | _ => False
  moves s r a t :=
    match r, a with
    | .store r, a => ∃ now, Store.answer now r s = (a, t)
    | _, _ => False

/-- A program that deals with the store for the identity, whatever it comes to. -/
abbrev Deals (i : Identity) {α : Type} (p : Program interface α) (s : Store) : Prop :=
  p.Keeps (dealing i) (fun _ _ => True) s

/-- In a store, what the identity `i` does is kept apart from what there is of `j`. -/
structure Isolated (s : Store) (i j : Identity) : Prop where
  /-- No session is listed for both. -/
  lists : ∀ a ∈ s.list i, ∀ b ∈ s.list j, a.key ≠ b.key
  /-- An operation of `i` comes to an end, and leaves what there is of `j`. -/
  unchanged : ∀ {α : Type} (p : Program interface α), IssuedFor i p → ∀ clock, ∃ a t,
    serve p clock s = some (a, t) ∧
      (∀ key, j.owns key → t.sessions.get? key = s.sessions.get? key) ∧
      t.list j = s.list j ∧ t.current j = s.current j ∧
      ∀ now, (t.resolve j now).1 = (s.resolve j now).1
  /-- An operation of `i` comes to the same, whatever there is of `j`. -/
  hidden : ∀ {α : Type} (p : Program interface α), IssuedFor i p → ∀ clock t, s.AgreeBeyond j t →
    (serve p clock t).map Prod.fst = (serve p clock s).map Prod.fst

variable {i j : Identity} {s t : Store} {α : Type} {p : Program interface α} {params : Json}

/-! ## What an operation asks for -/

theorem owns_of_resolve (h : s.Orderly) {now : Timestamp} {key : SessionKey}
    (hkey : (s.resolve i now).1 = .ok key) : i.owns key := by
  rw [Store.resolve] at hkey
  split at hkey
  · rename_i hother
    cases hkey
    exact h.switched i _ (Option.filter_eq_some_iff.1 hother).1
  · split at hkey <;> cases hkey
    exact owns_defaultKey i

/-- A program that asks once for the identity, and goes on. -/
theorem deals_ask_bind {r : StoreRequest} (hr : r.IsFor i) {f : r.Answer → Program interface α}
    (hf : ∀ now, Deals i (f (Store.answer now r s).1) (Store.answer now r s).2) :
    Deals i (ask (.store r) >>= f) s := by
  refine ⟨hr, fun a t hmoves => ?_⟩
  obtain ⟨now, hanswer⟩ := hmoves
  have hdeals := hf now
  rw [hanswer] at hdeals
  exact hdeals

theorem history_deals {key : SessionKey} (hkey : i.owns key) : Deals i (Rpc.history key) s := by
  refine deals_ask_bind (r := .transcript key) hkey fun now => ?_
  split <;> trivial

theorem chatHistory_deals (horderly : s.Orderly) : Deals i (Rpc.chatHistory i params) s := by
  rw [Rpc.chatHistory]
  split
  · split
    · rename_i howns
      exact history_deals howns
    · trivial
  · refine deals_ask_bind (r := .resolve i) rfl fun now => ?_
    split
    · trivial
    · rename_i hkey
      exact history_deals (owns_of_resolve horderly hkey)

theorem chatSend_deals : Deals i (Rpc.chatSend i params) s := by
  rw [Rpc.chatSend]
  split
  · trivial
  · refine deals_ask_bind (r := .resolve i) rfl fun now => ?_
    split <;> trivial

theorem switchTo_deals {name : String} : Deals i (Rpc.switchTo i name) s := by
  refine deals_ask_bind (r := .switch i name) rfl fun now => ?_
  split <;> trivial

theorem sessionsCreate_deals : Deals i (Rpc.sessionsCreate i params) s := by
  refine deals_ask_bind (r := .create i (Rpc.newSession params)) rfl fun now => ?_
  split
  · trivial
  · split
    · exact switchTo_deals
    · trivial

theorem sessionsSwitch_deals : Deals i (Rpc.sessionsSwitch i params) s := by
  rw [Rpc.sessionsSwitch]
  split
  · trivial
  · exact switchTo_deals

theorem sessionsReset_deals : Deals i (Rpc.sessionsReset i params) s := by
  refine deals_ask_bind (r := .reset i) rfl fun now => ?_
  split <;> trivial

theorem sessionsDelete_deals : Deals i (Rpc.sessionsDelete i params) s := by
  rw [Rpc.sessionsDelete]
  split
  · trivial
  · rename_i name _
    refine deals_ask_bind (r := .delete i name) rfl fun now => ?_
    split <;> trivial

theorem sessionsList_deals : Deals i (Rpc.sessionsList i params) s :=
  deals_ask_bind (r := .list i) rfl fun _ => trivial

theorem sessionsCurrent_deals : Deals i (Rpc.sessionsCurrent i params) s :=
  deals_ask_bind (r := .current i) rfl fun _ => trivial

theorem forChat_of_identity {h : Identity → Rpc.Handler}
    (hparams : Rpc.identity params = .ok i) : Rpc.forChat h params = h i params := by
  rw [Rpc.forChat, hparams]

/-- **An operation of an identity makes requests for that identity only**, whatever they are
answered. -/
theorem deals_of_issuedFor (h : IssuedFor i p) (horderly : s.Orderly) : Deals i p s := by
  cases h with
  | call hmethod hhandler hparams =>
    simp only [sessionMethods, List.mem_cons, List.not_mem_nil, or_false] at hmethod
    rcases hmethod with rfl | rfl | rfl | rfl | rfl | rfl | rfl | rfl <;>
      cases hhandler <;> rw [forChat_of_identity hparams]
    · exact chatSend_deals
    · exact chatHistory_deals horderly
    · exact sessionsList_deals
    · exact sessionsCreate_deals
    · exact sessionsSwitch_deals
    · exact sessionsReset_deals
    · exact sessionsCurrent_deals
    · exact sessionsDelete_deals
  | request hr => exact ⟨hr, fun _ _ _ => trivial⟩

/-! ## Whole operations -/

theorem serve_ask {r : StoreRequest} {next : r.Answer → Program interface α}
    {clock : Nat → Timestamp} {a : r.Answer} (h : Store.answer (clock 0) r s = (a, t)) :
    serve (.ask (.store r) next) clock s = serve (next a) (fun n => clock (n + 1)) t := by
  change (match Store.answer (clock 0) r s with
    | (a, t) => serve (next a) (fun n => clock (n + 1)) t) = _
  rw [h]

/-- **An operation comes to an end, and changes nothing beyond what belongs to the identity.** -/
theorem exists_serve (h : Deals i p s) (clock : Nat → Timestamp) :
    ∃ a t, serve p clock s = some (a, t) ∧ s.AgreeBeyond i t := by
  induction p generalizing s clock with
  | done a => exact ⟨a, s, rfl, .refl i s⟩
  | ask r next ih =>
    cases r with
    | store r =>
      obtain ⟨hr, hnext⟩ := h
      have hchanged := Store.agreeBeyond_answer hr (clock 0) s
      cases hs : Store.answer (clock 0) r s with
      | mk first s' =>
        rw [hs] at hchanged
        obtain ⟨a, t, hserve, hagree⟩ := ih first (hnext first s' ⟨_, hs⟩) fun n => clock (n + 1)
        exact ⟨a, t, (serve_ask hs).trans hserve, hchanged.trans hagree⟩
    | _ => exact h.1.elim

/-- **An operation comes to the same in stores that agree on what belongs to the identity.** -/
theorem serve_congr (h : Deals i p s) (horderly : s.Orderly) (hagree : s.AgreeOn i t)
    (clock : Nat → Timestamp) :
    (serve p clock t).map Prod.fst = (serve p clock s).map Prod.fst := by
  induction p generalizing s t clock with
  | done a => rfl
  | ask r next ih =>
    cases r with
    | store r =>
      obtain ⟨hr, hnext⟩ := h
      obtain ⟨hanswer, hafter⟩ := hagree.answer horderly hr (clock 0)
      have horderly' := horderly.answer (clock 0) r
      cases hs : Store.answer (clock 0) r s with
      | mk first s' =>
        cases ht : Store.answer (clock 0) r t with
        | mk first' t' =>
          rw [hs, ht] at hanswer hafter
          rw [hs] at horderly'
          cases hanswer
          have hrest := ih first (hnext first s' ⟨_, hs⟩) horderly' hafter fun n => clock (n + 1)
          exact (congrArg _ (serve_ask ht)).trans (hrest.trans (congrArg _ (serve_ask hs)).symm)
    | _ => exact h.1.elim

/-! ## Isolation -/

theorem isolated_of_apart (horderly : s.Orderly) (hapart : i.Apart j) : Isolated s i j := by
  have hapart' : j.Apart i := fun key hj hi => hapart key hi hj
  refine ⟨fun a ha b hb heq => ?_, fun p hp clock => ?_, fun p hp clock t ht => ?_⟩
  · have howns := horderly.owns_of_mem_list hb
    rw [← heq] at howns
    exact hapart _ (horderly.owns_of_mem_list ha) howns
  · obtain ⟨a, t, hserve, hagree⟩ := exists_serve (deals_of_issuedFor hp horderly) clock
    have hagreeOn := hagree.agreeOn hapart
    exact ⟨a, t, hserve, fun key hkey => (hagreeOn.get? hkey).symm, hagreeOn.list.symm,
      (hagreeOn.current horderly).symm, fun now => (hagreeOn.resolve horderly now).1.symm⟩
  · exact serve_congr (deals_of_issuedFor hp horderly) horderly (ht.agreeOn hapart') clock

/-- Whoever owns the default session of an identity lists it once it is made. -/
theorem exists_mem_list_of_resolve (h : i.owns j.defaultKey) (now : Timestamp) :
    ∃ a ∈ (Store.inMemory.resolve j now).2.list i, a.key = j.defaultKey := by
  refine ⟨_, List.mem_mergeSort.2 (List.mem_map.2 ⟨(j.defaultKey, .new j.defaultKey j none now),
    List.mem_filter.2 ⟨List.mem_singleton.2 rfl, h⟩, rfl⟩), rfl⟩

/-- **An identity is isolated from another, in every store that is reached, just when neither owns
the default session of the other.** -/
theorem isolated_iff (i j : Identity) :
    (∀ s, Reached s → Isolated s i j) ↔ ¬ i.owns j.defaultKey ∧ ¬ j.owns i.defaultKey := by
  rw [← apart_iff]
  refine ⟨fun h => apart_iff.2 ⟨fun howns => ?_, fun howns => ?_⟩,
    fun hapart s hs => isolated_of_apart hs.orderly hapart⟩
  · obtain ⟨a, ha, hkey⟩ := exists_mem_list_of_resolve howns default
    obtain ⟨b, hb, hkey'⟩ := exists_mem_list_of_resolve (owns_defaultKey j) default
    exact (h _ (.asked .inMemory default (.resolve j))).lists a ha b hb (hkey.trans hkey'.symm)
  · obtain ⟨a, ha, hkey⟩ := exists_mem_list_of_resolve (owns_defaultKey i) default
    obtain ⟨b, hb, hkey'⟩ := exists_mem_list_of_resolve howns default
    exact (h _ (.asked .inMemory default (.resolve i))).lists a ha b hb (hkey.trans hkey'.symm)

/-- A chat with a colon in its name may be named like a session of another chat. -/
theorem not_isolated_of_colon :
    ¬ ∀ i j : Identity, (∃ params, Rpc.identity params = .ok i) →
      (∃ params, Rpc.identity params = .ok j) → i ≠ j → ∀ s, Reached s → Isolated s i j := by
  intro h
  have howns : (⟨"ws", "a"⟩ : Identity).owns (Identity.defaultKey ⟨"ws", "a:b"⟩) := by decide
  obtain ⟨a, ha, hkey⟩ := exists_mem_list_of_resolve howns default
  obtain ⟨b, hb, hkey'⟩ := exists_mem_list_of_resolve (owns_defaultKey ⟨"ws", "a:b"⟩) default
  have hisolated := h ⟨"ws", "a"⟩ ⟨"ws", "a:b"⟩ ⟨.obj [("chat", .str "a")], rfl⟩
    ⟨.obj [("chat", .str "a:b")], rfl⟩ (by decide) _
    (.asked .inMemory default (.resolve ⟨"ws", "a:b"⟩))
  exact hisolated.lists a ha b hb (hkey.trans hkey'.symm)

/-- **Chats of one channel that have no colon in their names are isolated.** -/
theorem isolated_of_no_colon (hs : Reached s) (hchannel : i.channel = j.channel) (hne : i ≠ j)
    (hi : ':' ∉ i.chat.toList) (hj : ':' ∉ j.chat.toList) : Isolated s i j :=
  isolated_of_apart hs.orderly (apart_iff.2
    ⟨not_owns_defaultKey hchannel hne hj, not_owns_defaultKey hchannel.symm hne.symm hi⟩)

end Parley.Gateway
