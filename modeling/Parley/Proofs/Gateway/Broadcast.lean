import Parley.Proofs.Gateway.Gate

/-!
# Events before the token

The check for the token stands before calls only.  A client that has not shown the token is refused
whatever it asks for, but events are sent on to it as they come: what is written to it is the
greeting, refusals and pongs, and, of chat events, all those that are broadcast while it is
connected (`written_before_token`).  So a client without the token hears what the chats of all
others say (`chats_reach_strangers`).
-/

namespace Parley.Gateway

open Program

namespace Happening

/-- Whether the client shows the token. -/
def Opens (token : String) : Happening → Prop
  | input (.text text) _ => Gateway.Opens token text
  | _ => False

/-- The event that is sent on. -/
def event? : Happening → Option Event
  | input (.event e) true => some e
  | _ => none

/-- What comes of an input while the token has not been shown. -/
def answerTo : Connection.Input → Received
  | .text text => refusal text
  | .ping => ⟨[Event.pong.toJson], ⟨false⟩, none⟩
  | .event e => ⟨[e.toJson], ⟨false⟩, none⟩
  | .other => ⟨[], ⟨false⟩, none⟩

/-- What comes of something that happens while the token has not been shown. -/
def turnedAway : Happening → Received × Bool
  | input i heard => i.sent heard (answerTo i)
  | lagged => (⟨[], ⟨false⟩, none⟩, true)
  | closed => (⟨[], ⟨false⟩, none⟩, false)

/-- What happens up to the end of a connection whose client has not shown the token. -/
def attended : List Happening → List Happening
  | [] => []
  | x :: rest => x :: if x.turnedAway.2 then attended rest else []

end Happening

open Happening

variable {token : String} {setup : Agent.Setup} {x : Happening} {before rest : List Happening}
  {json : Json}

/-! ## One happening -/

theorem connection_answerTo (i : Connection.Input) : (answerTo i).connection = ⟨false⟩ := by
  cases i with
  | text text => exact refusal_connection text
  | ping | event | other => rfl

theorem message_answerTo (i : Connection.Input) : (answerTo i).message = none := by
  cases i with
  | text text =>
    rw [answerTo, refusal]
    split <;> rfl
  | ping | event | other => rfl

/-- Nobody becomes known, and nothing is left to handle. -/
theorem turnedAway_keeps (x : Happening) :
    x.turnedAway.1.connection = ⟨false⟩ ∧ x.turnedAway.1.message = none := by
  cases x with
  | lagged | closed => exact ⟨rfl, rfl⟩
  | input i heard =>
    cases heard <;> exact ⟨connection_answerTo i, message_answerTo i⟩

/-- **Before the token is shown nothing is asked**, whatever happens. -/
theorem attend_eq_turnedAway (h : ¬ x.Opens token) :
    (⟨false⟩ : Connection).attend ⟨some token⟩ setup x = .done x.turnedAway := by
  cases x with
  | lagged | closed => rfl
  | input i heard =>
    have htake : (⟨false⟩ : Connection).take ⟨some token⟩ setup i = .done (answerTo i) := by
      cases i with
      | text text => exact Connection.receive_eq_refusal h
      | ping | event | other => rfl
    rw [Connection.attend, htake]
    rfl

/-! ## What is written -/

/-- Whether something written is an event of a chat. -/
def isChat (json : Json) : Bool := (json.field "event").str? = some "chat"

theorem isChat_event (e : Event) : isChat e.toJson = decide (e.name = "chat") := by
  rw [isChat, Event.toJson]
  exact decide_eq_decide.2 Option.some_inj

/-- What is told to a client that has not shown the token, in answer to what it sends. -/
def IsRefusal (json : Json) : Prop :=
  (∃ why, json = (Event.authResult false (some why)).toJson) ∨
    ∃ id why, json = (Reply.mk id (.error (.kind .auth why))).toJson

theorem isRefusal_of_mem {text : String} (h : json ∈ (refusal text).replies) : IsRefusal json := by
  rw [refusal] at h
  split at h
  · cases h
  · exact .inl ⟨_, List.mem_singleton.1 h⟩
  · exact .inr ⟨_, _, List.mem_singleton.1 h⟩

theorem isChat_of_isRefusal (h : IsRefusal json) : isChat json = false := by
  rcases h with ⟨why, rfl⟩ | ⟨id, why, rfl⟩
  · exact isChat_event _
  · rfl

/-- A refusal, a pong, or the event that is sent on. -/
theorem mem_turnedAway (h : json ∈ x.turnedAway.1.replies) :
    IsRefusal json ∨ json = Event.pong.toJson ∨ ∃ e, x.event? = some e ∧ json = e.toJson := by
  cases x with
  | lagged | closed => cases h
  | input i heard =>
    cases heard with
    | false => cases h
    | true =>
      cases i with
      | text text => exact .inl (isRefusal_of_mem h)
      | ping => exact .inr (.inl (List.mem_singleton.1 h))
      | event e => exact .inr (.inr ⟨e, rfl, List.mem_singleton.1 h⟩)
      | other => cases h

/-- Of chat events, just those are written that are sent on. -/
theorem filter_turnedAway (x : Happening) :
    x.turnedAway.1.replies.filter isChat =
      (x.event?.toList.filter fun e => e.name = "chat").map Event.toJson := by
  cases x with
  | lagged | closed => rfl
  | input i heard =>
    cases heard with
    | false => cases i <;> rfl
    | true =>
      cases i with
      | text text =>
        exact List.filter_eq_nil_iff.2 fun json hmem =>
          Bool.eq_false_iff.1 (isChat_of_isRefusal (isRefusal_of_mem hmem))
      | ping | other => rfl
      | event e =>
        have hchat := isChat_event e
        by_cases hname : e.name = "chat"
        · rw [decide_eq_true hname] at hchat
          simp [turnedAway, Connection.Input.sent, answerTo, event?, hchat, hname]
        · rw [decide_eq_false hname] at hchat
          simp [turnedAway, Connection.Input.sent, answerTo, event?, hchat, hname]

theorem filter_flatMap_turnedAway (xs : List Happening) :
    ((xs.map (·.turnedAway.1)).flatMap Received.replies).filter isChat =
      ((xs.filterMap event?).filter fun e => e.name = "chat").map Event.toJson := by
  induction xs with
  | nil => rfl
  | cons x xs ih =>
    rw [List.map_cons, List.flatMap_cons, List.filter_append, filter_turnedAway, ih,
      ← List.map_append, ← List.filter_append]
    cases hevent : x.event? with
    | none => rw [List.filterMap_cons_none hevent, Option.toList_none, List.nil_append]
    | some e => rw [List.filterMap_cons_some hevent, Option.toList_some, List.singleton_append]

/-! ## The loop -/

/-- What happens before the token is shown comes to what `turnedAway` says, and what happens after
it to what it comes to on a new connection. -/
theorem serve_append (h : ∀ x ∈ before, ¬ x.Opens token) (rest : List Happening) :
    (⟨false⟩ : Connection).serve ⟨some token⟩ setup (before ++ rest) =
      if before.all (·.turnedAway.2) then do
        let more ← (⟨false⟩ : Connection).serve ⟨some token⟩ setup rest
        .done ((attended before).map (·.turnedAway.1) ++ more)
      else .done ((attended before).map (·.turnedAway.1)) := by
  induction before with
  | nil => exact (bind_done _).symm
  | cons x before ih =>
    obtain ⟨hx, hbefore⟩ := List.forall_mem_cons.1 h
    rw [List.cons_append, Connection.serve, attend_eq_turnedAway hx, done_bind, List.all_cons,
      attended]
    dsimp only
    cases hgoesOn : x.turnedAway.2 with
    | false => rfl
    | true =>
      rw [if_pos rfl, if_pos rfl, (turnedAway_keeps x).1, ih hbefore, Bool.true_and]
      split
      · exact bind_bind ..
      · rfl

/-- **Before the token is shown a client is refused, but hears every chat.**  What is written are
the greeting, refusals, pongs and events that are sent on; of chat events it is all those that are
broadcast while the connection lasts.  Nothing is asked, and nothing is left to handle. -/
theorem written_before_token (token : String) (h : token ≠ "") (setup : Agent.Setup)
    (before : List Happening) (hbefore : ∀ x ∈ before, ¬ x.Opens token) :
    let auth := Auth.ofSetting (some token)
    let start := Connection.opened auth
    let received := (attended before).map (·.turnedAway.1)
    let events := (attended before).filterMap event?
    let written := Connection.greeting :: received.flatMap Received.replies
    (∀ rest, start.serve auth setup (before ++ rest) =
      if before.all (·.turnedAway.2) then do
        let more ← start.serve auth setup rest
        .done (received ++ more)
      else .done received) ∧
    (∀ r ∈ received, r.connection = start ∧ r.message = none) ∧
    (∀ json ∈ written, json = Connection.greeting ∨ IsRefusal json ∨ json = Event.pong.toJson ∨
      ∃ e ∈ events, json = e.toJson) ∧
    written.filter isChat = (events.filter fun e => e.name = "chat").map Event.toJson := by
  intro auth start received events written
  have hauth : auth = ⟨some token⟩ := Connection.ofSetting_some h
  have hstart : start = ⟨false⟩ := by
    rw [show start = Connection.opened auth from rfl, hauth]
    rfl
  refine ⟨?_, ?_, ?_, ?_⟩
  · rw [hstart, hauth]
    exact serve_append hbefore
  · rw [hstart]
    exact List.forall_mem_map.2 fun x _ => turnedAway_keeps x
  · intro json hjson
    rcases List.mem_cons.1 hjson with rfl | hjson
    · exact .inl rfl
    obtain ⟨r, hr, hreply⟩ := List.mem_flatMap.1 hjson
    obtain ⟨x, hx, rfl⟩ := List.mem_map.1 hr
    rcases mem_turnedAway hreply with hrefusal | hpong | ⟨e, hevent, heq⟩
    · exact .inr (.inl hrefusal)
    · exact .inr (.inr (.inl hpong))
    · exact .inr (.inr (.inr ⟨e, List.mem_filterMap.2 ⟨x, hx, hevent⟩, heq⟩))
  · have hgreeting : isChat Connection.greeting = false := isChat_event _
    rw [List.filter_cons_of_neg (Bool.eq_false_iff.1 hgreeting)]
    exact filter_flatMap_turnedAway _

/-- A message to a chat and a refused call, at a connection whose client has not shown the
token. -/
theorem written_before_secret :
    let start := Connection.opened (Auth.ofSetting (some "secret"))
    let call :=
      "\x7b\"id\":\"7\",\"method\":\"chat.history\",\"params\":\x7b\"chat\":\"laptop\"\x7d\x7d"
    let look := Event.ofOutbound (.message ⟨⟨"ws", "laptop"⟩, "look", [], none⟩)
    let before := [Happening.input (.text call) true, .input (.event look) true]
    "secret" ≠ "" ∧ (∀ x ∈ before, ¬ x.Opens "secret") ∧
      start.serve (Auth.ofSetting (some "secret")) {} before =
        .done [refusal call, ⟨[look.toJson], ⟨false⟩, none⟩] := by
  intro start call look before
  have hclosed : ∀ x ∈ before, ¬ x.Opens "secret" := by
    have hcall : ¬ Gateway.Opens "secret" call := by decide +kernel
    simp only [before, List.forall_mem_cons]
    exact ⟨hcall, id, nofun⟩
  obtain ⟨hserve, -⟩ := written_before_token "secret" (by decide) {} before hclosed
  refine ⟨by decide, hclosed, ?_⟩
  rw [← List.append_nil before, hserve]
  rfl

/-- **Clients that have not shown the token are sent chat events**, namely those of all chats. -/
theorem chats_reach_strangers :
    ¬ ∀ (token : String), token ≠ "" → ∀ (setup : Agent.Setup) (before : List Happening),
      (∀ x ∈ before, ¬ x.Opens token) →
      ∀ received, (Connection.opened (Auth.ofSetting (some token))).serve
          (Auth.ofSetting (some token)) setup before = .done received →
        ∀ json ∈ received.flatMap Received.replies, ¬ isChat json := by
  intro hsilent
  let look := Event.ofOutbound (.message ⟨⟨"ws", "laptop"⟩, "look", [], none⟩)
  have hclosed : ∀ x ∈ [Happening.input (.event look) true], ¬ x.Opens "secret" := by
    simp only [List.forall_mem_cons]
    exact ⟨id, nofun⟩
  have hquiet := hsilent "secret" (by decide) {} [.input (.event look) true] hclosed
    [⟨[look.toJson], ⟨false⟩, none⟩] rfl look.toJson List.mem_cons_self
  exact hquiet (isChat_event look)

end Parley.Gateway
