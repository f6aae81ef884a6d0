import Mathlib.Data.List.Basic
import Parley.Gateway.Connection
import Parley.Proofs.Courses

/-!
# Nothing before the token

A gateway with a token answers two kinds of frames at once, those that show a token; every other
call goes through one check before it is looked at.  So until the token is shown a client hears
refusals only, and a refusal is made of its own frame (`refusal`): to make it nothing is asked of
the surroundings, which therefore stay what they are.

The frames of a client are answered one after the other (`receiveAll`).  `leads_receive` says what
one frame does to the mark that the client is known, and `leads_receiveAll` what many do: it is set
by the first frame that shows the token, and never taken back.  `receiveAll_append` says what a
client is told before.
-/

namespace Parley.Gateway

open Program

/-- The token that a frame shows, if it is there to show one. -/
def Frame.shown? : Frame → Option (Option String)
  | .token shown => some shown
  | .call _ method params => if method = "auth" then some (params.field "token").str? else none

/-- Whether a text is a frame that shows a token, byte for byte. -/
def Opens (token text : String) : Prop :=
  ∃ frame shown, Frame.decoder.readText text = some frame ∧
    frame.shown? = some (some shown) ∧ shown.toUTF8 = token.toUTF8

instance (token text : String) : Decidable (Opens token text) :=
  decidable_of_iff ((Frame.decoder.readText text).bind Frame.shown? = some (some token)) <| by
    constructor
    · intro h
      obtain ⟨frame, hread, hshown⟩ := Option.bind_eq_some_iff.1 h
      exact ⟨frame, token, hread, hshown, rfl⟩
    · rintro ⟨frame, shown, hread, hshown, hbytes⟩
      rw [hread, Option.bind_some, hshown, String.toByteArray_inj.1 hbytes]

/-- Why a token is not accepted. -/
def whyRefused (shown : Option String) : String :=
  (Error.authFailed (if shown.isSome then "invalid token" else "token required")).message

/-- What comes of a text frame that does not show the token while it has not been shown. -/
def refusal (text : String) : Received :=
  match Frame.decoder.readText text with
  | none => ⟨[], ⟨false⟩, none⟩
  | some (.token shown) =>
    ⟨[(Event.authResult false (some (whyRefused shown))).toJson], ⟨false⟩, none⟩
  | some (.call id method params) =>
    let why :=
      if method = "auth" then whyRefused (params.field "token").str? else "Not authenticated"
    ⟨[(Reply.mk id (.error (.kind .auth why))).toJson], ⟨false⟩, none⟩

theorem refusal_connection (text : String) : (refusal text).connection = ⟨false⟩ := by
  rw [refusal]
  split <;> rfl

namespace Connection

/-- What comes of text frames that are answered one after the other. -/
def receiveAll (c : Connection) (auth : Auth) (setup : Agent.Setup) :
    List String → Program Agent.interface (List Received)
  | [] => .done []
  | text :: rest => do
    let first ← c.receive auth setup text
    let more ← first.connection.receiveAll auth setup rest
    .done (first :: more)

variable {token : String} {setup : Agent.Setup} {c : Connection} {text : String}

/-! ## The check -/

theorem ofSetting_some (h : token ≠ "") : Auth.ofSetting (some token) = ⟨some token⟩ := by
  have hempty : token.isEmpty = false := String.isEmpty_eq_false_iff.2 h
  simp [Auth.ofSetting, String.nonempty?, hempty]

theorem verify_of_eq : (⟨some token⟩ : Auth).verify (some token) = .ok () :=
  (Auth.verify_eq_ok_iff _ _).2 (.inr rfl)

theorem verify_of_ne {shown : Option String} (h : shown ≠ some token) :
    ∃ e, (⟨some token⟩ : Auth).verify shown = .error e ∧ e.message = whyRefused shown := by
  cases shown with
  | none => exact ⟨_, rfl, rfl⟩
  | some shown =>
    have hne : sameToken token shown = false := by
      rw [Bool.eq_false_iff, Ne, sameToken_iff]
      rintro rfl
      exact h rfl
    exact ⟨.authFailed "invalid token", by simp [Auth.verify, hne], rfl⟩

/-- A frame that shows a token opens the gateway just when it is the one. -/
theorem opens_iff {frame : Frame} {shown : Option String}
    (hread : Frame.decoder.readText text = some frame) (hshown : frame.shown? = some shown) :
    Opens token text ↔ shown = some token := by
  constructor
  · rintro ⟨frame', shown', hread', hshown', hbytes⟩
    rw [hread] at hread'
    obtain rfl := Option.some.inj hread'
    rw [hshown] at hshown'
    rw [Option.some.inj hshown', String.toByteArray_inj.1 hbytes]
  · rintro rfl
    exact ⟨frame, token, hread, hshown, rfl⟩

theorem not_opens_of_none (h : Frame.decoder.readText text = none) : ¬ Opens token text := by
  rintro ⟨frame, shown, hread, -⟩
  rw [h] at hread
  cases hread

theorem not_opens_of_call {id method : String} {params : Json}
    (h : Frame.decoder.readText text = some (.call id method params)) (hmethod : method ≠ "auth") :
    ¬ Opens token text := by
  rintro ⟨frame, shown, hread, hshown, -⟩
  rw [h] at hread
  rw [← Option.some.inj hread, Frame.shown?, if_neg hmethod] at hshown
  cases hshown

/-! ## One frame -/

/-- **Before the token is shown a client is refused**, and nothing is asked. -/
theorem receive_eq_refusal (h : ¬ Opens token text) :
    (⟨false⟩ : Connection).receive ⟨some token⟩ setup text = .done (refusal text) := by
  rw [receive, refusal]
  cases hread : Frame.decoder.readText text with
  | none => rfl
  | some frame =>
    cases frame with
    | token shown =>
      have hne : shown ≠ some token := fun heq => h ((opens_iff hread rfl).2 heq)
      obtain ⟨e, hverify, hwhy⟩ := verify_of_ne hne
      simp only [showToken, hverify, hwhy]
    | call id method params =>
      by_cases hmethod : method = "auth"
      · have hshown : (Frame.call id method params).shown? =
            some (params.field "token").str? := if_pos hmethod
        have hne : (params.field "token").str? ≠ some token := fun heq =>
          h ((opens_iff hread hshown).2 heq)
        obtain ⟨e, hverify, hwhy⟩ := verify_of_ne hne
        simp only [hmethod, if_true, authenticate, hverify, hwhy]
      · simp only [hmethod, if_false, Rpc.route]
        rfl

/-- A client is known after a frame if it was before, or if the frame shows the token. -/
theorem leads_receive {log : List Agent.interface.Inquiry} {r : Received}
    (h : Leads (c.receive ⟨some token⟩ setup text) log (done r)) :
    r.connection.isAuthenticated = true ↔ c.isAuthenticated = true ∨ Opens token text := by
  rw [receive] at h
  cases hread : Frame.decoder.readText text with
  | none =>
    rw [hread] at h
    obtain ⟨-, hr⟩ := leads_done h
    cases hr
    simp [not_opens_of_none hread]
  | some frame =>
    rw [hread] at h
    cases frame with
    | token shown =>
      obtain ⟨-, hr⟩ := leads_done h
      cases hr
      rw [opens_iff hread rfl, showToken]
      by_cases heq : shown = some token
      · simp [heq, verify_of_eq]
      · obtain ⟨e, hverify, -⟩ := verify_of_ne heq
        simp [heq, hverify]
    | call id method params =>
      dsimp only at h
      by_cases hmethod : method = "auth"
      · rw [if_pos hmethod] at h
        obtain ⟨-, hr⟩ := leads_done h
        cases hr
        rw [opens_iff hread (if_pos hmethod), authenticate]
        by_cases heq : (params.field "token").str? = some token
        · simp [heq, verify_of_eq]
        · obtain ⟨e, hverify, -⟩ := verify_of_ne heq
          simp [heq, hverify]
      · rw [if_neg hmethod] at h
        obtain ⟨first, second, answered, -, -, hdone⟩ := leads_bind h
        obtain ⟨-, hr⟩ := leads_done hdone
        cases hr
        simp [not_opens_of_call hread hmethod]

/-! ## Many frames -/

theorem leads_receiveAll {frames : List String} {log : List Agent.interface.Inquiry}
    {received : List Received}
    (h : Leads (c.receiveAll ⟨some token⟩ setup frames) log (done received)) :
    received.length = frames.length ∧ ∀ n r, received[n]? = some r →
      (r.connection.isAuthenticated = true ↔
        c.isAuthenticated = true ∨ ∃ text ∈ frames.take (n + 1), Opens token text) := by
  induction frames generalizing c log received with
  | nil =>
    obtain ⟨-, hr⟩ := leads_done h
    cases hr
    exact ⟨rfl, nofun⟩
  | cons text frames ih =>
    obtain ⟨first, rest, r, rfl, hfirst, hrest⟩ := leads_bind h
    obtain ⟨second, third, more, rfl, hmore, hdone⟩ := leads_bind hrest
    obtain ⟨-, hr⟩ := leads_done hdone
    cases hr
    have hknown := leads_receive hfirst
    obtain ⟨hlength, hflags⟩ := ih hmore
    refine ⟨congrArg (· + 1) hlength, fun n r' hn => ?_⟩
    cases n with
    | zero =>
      rw [List.getElem?_cons_zero, Option.some.injEq] at hn
      rw [← hn, hknown]
      simp
    | succ n =>
      rw [List.getElem?_cons_succ] at hn
      rw [hflags n r' hn, hknown, List.take_succ_cons, List.exists_mem_cons_iff, or_assoc]

/-- Frames before the token come to their refusals, and those after them to what they come to on
a new connection. -/
theorem receiveAll_append {before : List String} (h : ∀ text ∈ before, ¬ Opens token text)
    (rest : List String) :
    (⟨false⟩ : Connection).receiveAll ⟨some token⟩ setup (before ++ rest) =
      (do
        let more ← (⟨false⟩ : Connection).receiveAll ⟨some token⟩ setup rest
        .done (before.map refusal ++ more)) := by
  induction before with
  | nil => exact (bind_done _).symm
  | cons text before ih =>
    obtain ⟨htext, hbefore⟩ := List.forall_mem_cons.1 h
    rw [List.cons_append, receiveAll, receive_eq_refusal htext, done_bind, refusal_connection,
      ih hbefore, bind_bind]
    rfl

/-! ## The gate -/

/-- A frame that shows the token is accepted at once. -/
theorem receive_of_opens (h : Opens token text) :
    ∃ reply, c.receive ⟨some token⟩ setup text = .done ⟨[reply], ⟨true⟩, none⟩ := by
  obtain ⟨frame, shown, hread, hshown, hbytes⟩ := h
  obtain rfl := String.toByteArray_inj.1 hbytes
  rw [receive, hread]
  cases frame with
  | token other =>
    obtain rfl := Option.some.inj hshown
    refine ⟨(Event.authResult true none).toJson, ?_⟩
    simp only [showToken, verify_of_eq]
  | call id method params =>
    by_cases hmethod : method = "auth"
    · rw [Frame.shown?, if_pos hmethod, Option.some.injEq] at hshown
      dsimp only
      rw [if_pos hmethod]
      refine ⟨(Reply.mk id (.ok (.obj [("ok", .bool true)]))).toJson, ?_⟩
      simp only [authenticate, hshown, verify_of_eq]
    · rw [Frame.shown?, if_neg hmethod] at hshown
      cases hshown

/-- **The token is the only way in.**  A client is known from the first frame on that shows the
token, and remains known.  Before that frame nothing is asked of the surroundings: each frame comes
to its refusal, and a call is answered with the code for missing authentication. -/
theorem gate_of_token (token : String) (h : token ≠ "") (setup : Agent.Setup)
    (frames : List String) :
    let auth := Auth.ofSetting (some token)
    let start := Connection.opened auth
    (∀ log received, Leads (start.receiveAll auth setup frames) log (done received) →
      received.length = frames.length ∧ ∀ n r, received[n]? = some r →
        (r.connection.isAuthenticated = true ↔
          ∃ text ∈ frames.take (n + 1), Opens token text)) ∧
    (∀ (c : Connection) (text : String), Opens token text →
      ∃ reply, c.receive auth setup text = .done ⟨[reply], ⟨true⟩, none⟩) ∧
    ∀ before rest, frames = before ++ rest → (∀ text ∈ before, ¬ Opens token text) →
      start.receiveAll auth setup frames =
        (do
          let more ← start.receiveAll auth setup rest
          .done (before.map refusal ++ more)) ∧
      ∀ text ∈ before, (refusal text).message = none ∧
        ∀ id method params, Frame.decoder.readText text = some (.call id method params) →
          ∃ why, (refusal text).replies =
            [.obj [("id", .str id),
              ("error", .obj [("code", .int (-32000)), ("message", .str why)])]] := by
  intro auth start
  have hauth : auth = ⟨some token⟩ := ofSetting_some h
  have hstart : start = ⟨false⟩ := by
    rw [show start = Connection.opened auth from rfl, hauth]
    rfl
  rw [hstart, hauth]
  refine ⟨fun log received hleads => ?_, fun c text hopens => receive_of_opens hopens,
    fun before rest hframes hbefore => ⟨?_, fun text htext => ?_⟩⟩
  · simpa using leads_receiveAll hleads
  · rw [hframes, receiveAll_append hbefore rest]
  · rw [refusal]
    refine ⟨by split <;> rfl, fun id method params hread => ?_⟩
    rw [hread]
    exact ⟨_, rfl⟩

/-- A call without a token and the beginning of the token are refused; then the token opens. -/
theorem gate_of_secret :
    let auth := Auth.ofSetting (some "secret")
    let start := Connection.opened auth
    let call :=
      "\x7b\"id\":\"7\",\"method\":\"sessions.list\",\"params\":\x7b\"chat\":\"a\"\x7d\x7d"
    let short := "\x7b\"token\":\"secre\"\x7d"
    let right :=
      "\x7b\"id\":\"8\",\"method\":\"auth\",\"params\":\x7b\"token\":\"secret\"\x7d\x7d"
    "secret" ≠ "" ∧ ¬ Opens "secret" call ∧ ¬ Opens "secret" short ∧ Opens "secret" right ∧
      ∃ reply, start.receiveAll auth {} [call, short, right] =
        .done [refusal call, refusal short, ⟨[reply], ⟨true⟩, none⟩] := by
  intro auth start call short right
  have hcall : ¬ Opens "secret" call := by decide +kernel
  have hshort : ¬ Opens "secret" short := by decide +kernel
  have hright : Opens "secret" right := by decide +kernel
  obtain ⟨-, haccepted, hrefused⟩ := gate_of_token "secret" (by decide) {} [call, short, right]
  obtain ⟨reply, hreply⟩ := haccepted start right hright
  have hbefore : ∀ text ∈ [call, short], ¬ Opens "secret" text := by
    simp only [List.forall_mem_cons]
    exact ⟨hcall, hshort, nofun⟩
  refine ⟨by decide, hcall, hshort, hright, reply, ?_⟩
  rw [(hrefused [call, short] [right] rfl hbefore).1, receiveAll, hreply]
  rfl

end Connection

end Parley.Gateway
