import Parley.Proofs.Agent.Parts

/-!
# What a run leaves in the transcript

A run that comes to an outcome has written its session by a grammar.  The message comes first.
Then come *rounds*: what the model said before its calls, unless that is blank, and for every
call the call and its result, next to each other.  At the end stands what closes the run: the
reply, a note on the interruption, or nothing when the model failed.

## Whole and broken rounds

A round is *whole* when every call of the model's reply has its result.  Only the last round may
miss some, and only when the run was interrupted; such a round is kept apart from the others
(`Account.broken`), since it does not count among the iterations.

## What the answers may be

The statement is about every course of a run that comes to an outcome (`run_recounts`).  The
answers on it are arbitrary: the model may answer anything or fail, tools may do and return
anything, a cancellation or the deadline may strike at every request, and the store may switch
sessions meanwhile.  That turns go to one session only is therefore a fact about the requests.
-/

namespace Parley.Agent

open Program

/-! ## The grammar -/

/-- A reply that asks for calls, and what the calls came to, as far as they were made. -/
structure Round where
  reply : Model.Reply
  /-- The output and the status of each call that was made, in the order of the calls. -/
  results : List (String × ToolStatus)

/-- Calls with their results, each call next to its result. -/
def pairs (calls : List Model.ToolCall) (results : List (String × ToolStatus)) :
    List (Role × Content) :=
  (calls.zip results).flatMap fun (c, output, status) =>
    [(.toolCall, .toolCall c.id c.name c.arguments),
      (.toolResult, .toolResult c.id c.name output status)]

namespace Round

/-- What a round leaves: the words of the reply, unless they are blank, and the calls. -/
def said (r : Round) : List (Role × Content) :=
  (if r.reply.text.isAllBlank then [] else [(.assistant, .text r.reply.text)]) ++
    pairs r.reply.calls r.results

/-- There are calls, and each was made. -/
def IsWhole (r : Round) : Prop :=
  r.reply.calls ≠ [] ∧ r.results.length = r.reply.calls.length

/-- There are calls, and the first was made. -/
def IsBegun (r : Round) : Prop :=
  0 < r.results.length ∧ r.results.length ≤ r.reply.calls.length

end Round

/-- The rounds of a run, the last apart if it was interrupted. -/
structure Account where
  rounds : List Round
  broken : Option Round := none

namespace Account

/-- What closes a run. -/
def closing (o : Outcome) : List (Role × Content) :=
  match o.ending with
  | .finalAnswer | .iterationLimit => o.reply.toList.map fun reply => (.assistant, .text reply)
  | .timeout | .cancelled =>
    [(.assistant, .text ("[turn interrupted: " ++ o.ending.name ++ "]"))]
  | .fatalError => []

theorem closing_interrupted {m : Mission} {e : Ending} {made : Nat}
    (he : e = .timeout ∨ e = .cancelled) : closing (m.outcome e made) =
      [(.assistant, .text ("[turn interrupted: " ++ e.name ++ "]"))] := by
  rcases he with rfl | rfl <;> rfl

/-- What the rounds and the end leave. -/
def turns (a : Account) (o : Outcome) : List (Role × Content) :=
  a.rounds.flatMap Round.said ++ a.broken.toList.flatMap Round.said ++ closing o

/-- The replies of the rounds. -/
def replies (a : Account) : List (Option Model.Reply) :=
  (a.rounds ++ a.broken.toList).map fun r => some r.reply

/-- How an account fits an outcome, the answers of the model and the limit of its calls. -/
structure Fits (a : Account) (o : Outcome) (heard : List (Except Model.Failure Model.Stream))
    (limit : Nat) : Prop where
  whole : ∀ r ∈ a.rounds, r.IsWhole
  /-- Only an interruption breaks a round. -/
  broken : ∀ r ∈ a.broken, r.IsBegun ∧ (o.ending = .timeout ∨ o.ending = .cancelled)
  /-- The rounds are those that the model asked for, in order. -/
  replies : a.replies <+: heard.map replyOf
  limited : heard.length ≤ limit
  ended :
    match o.ending with
    | .finalAnswer =>
      ∃ r, heard.map replyOf = a.replies ++ [some r] ∧ r.calls = [] ∧ o.reply = some r.text
    | .iterationLimit => a.rounds.length = limit ∧ heard.length = limit ∧ o.reply.isSome
    | .fatalError => heard.map replyOf = a.replies ++ [none] ∧ o.reply = none
    | .timeout | .cancelled => o.reply = none

/-- The account with one more whole round before the others. -/
theorem Fits.cons {a : Account} {o : Outcome} {heard : List (Except Model.Failure Model.Stream)}
    {limit : Nat} (h : a.Fits o heard limit) {r : Round} (hr : r.IsWhole)
    {first : List (Except Model.Failure Model.Stream)}
    (hfirst : first.map replyOf = [some r.reply]) :
    Fits { a with rounds := r :: a.rounds } o (first ++ heard) (limit + 1) where
  whole := by
    intro r' hr'
    rcases List.mem_cons.1 hr' with rfl | hr'
    · exact hr
    · exact h.whole r' hr'
  broken := h.broken
  replies := by
    obtain ⟨more, hmore⟩ := h.replies
    refine ⟨more, ?_⟩
    rw [List.map_append, hfirst, ← hmore]
    rfl
  limited := by
    have hlength := congrArg List.length hfirst
    rw [List.length_map] at hlength
    rw [List.length_append, hlength]
    have := h.limited
    simp only [List.length_cons, List.length_nil]
    omega
  ended := by
    have hlength := congrArg List.length hfirst
    rw [List.length_map, List.length_cons, List.length_nil] at hlength
    have hended := h.ended
    cases hending : o.ending <;> rw [hending] at hended
    · obtain ⟨final, hheard, hcalls⟩ := hended
      refine ⟨final, ?_, hcalls⟩
      rw [List.map_append, hfirst, hheard]
      rfl
    · obtain ⟨hrounds, hheard, hreply⟩ := hended
      refine ⟨by rw [List.length_cons, hrounds], ?_, hreply⟩
      rw [List.length_append, hlength, hheard, Nat.add_comm]
    · exact hended
    · refine ⟨?_, hended.2⟩
      rw [List.map_append, hfirst, hended.1]
      rfl
    · exact hended

end Account

/-! ## Calls -/

/-- After a call a run goes on, or it has run out of time or was cancelled. -/
theorem verdict_tells {m : Mission} {attended : Attended} {log : Log} {stop : Option Ending}
    (h : Leads (m.verdict attended).run log (.done (.ok stop))) :
    Tells m.session log [] [] ∧ ∀ e ∈ stop, e = .timeout ∨ e = .cancelled := by
  unfold Mission.verdict at h
  split at h
  · obtain ⟨rfl, rfl⟩ := leads_run_pure h
    exact ⟨⟨rfl, rfl, rfl⟩, by simp⟩
  · obtain ⟨log₁, log₂, cancelled, rfl, hasked, hstop⟩ := leads_run_bind h
    obtain ⟨rfl, rfl⟩ := leads_run_pure hstop
    rw [List.append_nil]
    refine ⟨inquire_tells m.session (by trivial) hasked, fun e he => .inr ?_⟩
    split at he
    · exact (Option.some.inj he).symm
    · cases he

/-- A dispatched call adds itself and its result, and stops the run only by an interruption. -/
theorem dispatch_tells {m : Mission} {c : Model.ToolCall} {log : Log} {stop : Option Ending}
    (h : Leads (m.dispatch c).run log (.done (.ok stop))) :
    ∃ result, Tells m.session log (pairs [c] [result]) [] ∧
      ∀ e ∈ stop, e = .timeout ∨ e = .cancelled := by
  obtain ⟨called, answered, attended, service, last, rfl, hservice, hlast⟩ := leads_dispatch h
  have recorded : Tells m.session (m.frame c called answered attended).opening
      [(.toolCall, .toolCall c.id c.name c.arguments)] [] := ⟨rfl, rfl, rfl⟩
  have ran : Tells m.session service [] [] := tells_of_asksOnly (invoke_asksOnly m c) hservice
  have resolved : Tells m.session (m.frame c called answered attended).closing
      [(.toolResult, .toolResult c.id c.name
        (Tool.clipOutput m.setup.config.maxToolResultChars attended.result.content)
        attended.result.status)] [] := ⟨rfl, rfl, rfl⟩
  obtain ⟨judged, hstop⟩ := verdict_tells hlast
  exact ⟨(_, attended.result.status),
    recorded.append (ran.append (resolved.append judged)), hstop⟩

/-- Calls one after the other: all were made, or an interruption stopped the run. -/
theorem dispatchAll_tells {m : Mission} {calls : List Model.ToolCall} {log : Log}
    {stop : Option Ending} (h : Leads (m.dispatchAll calls).run log (.done (.ok stop))) :
    ∃ results, Tells m.session log (pairs calls results) [] ∧
      match stop with
      | none => results.length = calls.length
      | some e =>
        0 < results.length ∧ results.length ≤ calls.length ∧ (e = .timeout ∨ e = .cancelled) := by
  induction calls generalizing log with
  | nil =>
    obtain ⟨rfl, rfl⟩ := leads_run_pure h
    exact ⟨[], ⟨rfl, rfl, rfl⟩, rfl⟩
  | cons c calls ih =>
    obtain ⟨log₁, log₂, stopped, rfl, h₁, h₂⟩ := leads_run_bind h
    obtain ⟨result, hfirst, hstop⟩ := dispatch_tells h₁
    cases stopped with
    | some e =>
      obtain ⟨rfl, rfl⟩ := leads_run_pure h₂
      refine ⟨[result], ?_, Nat.one_pos, ?_, hstop e rfl⟩
      · rw [List.append_nil, pairs, List.zip_cons_cons, List.zip_nil_right]
        exact hfirst
      · simp only [List.length_cons, List.length_nil]
        omega
    | none =>
      obtain ⟨results, hrest, hlength⟩ := ih h₂
      refine ⟨result :: results, hfirst.append hrest, ?_⟩
      cases stop with
      | none => exact congrArg (· + 1) hlength
      | some e =>
        obtain ⟨-, hle, he⟩ := hlength
        exact ⟨Nat.succ_pos _, Nat.succ_le_succ hle, he⟩

/-! ## Ends -/

theorem interrupt_tells {m : Mission} {ending : Ending} {made : Nat} {log : Log} {o : Outcome}
    (h : Leads (m.interrupt ending made).run log (.done (.ok o))) :
    o = m.outcome ending made ∧
      Tells m.session log
        [(.assistant, .text ("[turn interrupted: " ++ ending.name ++ "]"))] [] := by
  obtain ⟨log₁, log₂, _, rfl, h₁, h₂⟩ := leads_run_bind h
  obtain ⟨rfl, rfl⟩ := leads_run_pure h₂
  rw [List.append_nil]
  exact ⟨rfl, record_tells h₁ (fun _ => rfl) fun _ => rfl⟩

theorem conclude_tells {m : Mission} {ending : Ending} {made : Nat} {reply : String} {log : Log}
    {o : Outcome} (h : Leads (m.conclude ending made reply).run log (.done (.ok o))) :
    o = { m.outcome ending made with reply := some reply } ∧
      Tells m.session log [(.assistant, .text reply)] [] := by
  obtain ⟨log₁, rest, _, rfl, h₁, g₁⟩ := leads_run_bind h
  obtain ⟨log₂, log₃, _, rfl, h₂, h₃⟩ := leads_run_bind g₁
  obtain ⟨rfl, rfl⟩ := leads_run_pure h₃
  have recorded := record_tells h₁ (fun _ => rfl) fun _ => rfl
  have announced := inquire_tells m.session (r := .emit _) trivial h₂
  refine ⟨rfl, ?_⟩
  rw [List.append_nil]
  exact recorded.append announced

theorem giveUp_tells {m : Mission} {made : Nat} {f : Model.Failure} {log : Log} {o : Outcome}
    (h : Leads (m.giveUp made f).run log (.done (.ok o))) :
    (∃ e, o = { m.outcome .fatalError made with error := some e }) ∧
      Tells m.session log [] [] := by
  obtain ⟨log₁, log₂, _, rfl, h₁, h₂⟩ := leads_run_bind h
  obtain ⟨rfl, rfl⟩ := leads_run_pure h₂
  rw [List.append_nil]
  exact ⟨⟨_, rfl⟩, inquire_tells _ (r := .emit _) trivial h₁⟩

theorem remark_tells {m : Mission} {text : String} {before after : Option String} {log : Log}
    (h : Leads (m.remark text before).run log (.done (.ok after))) :
    Tells m.session log (if text.isAllBlank then [] else [(.assistant, .text text)]) [] := by
  unfold Mission.remark at h
  split at h
  case isTrue hblank =>
    obtain ⟨rfl, rfl⟩ := leads_run_pure h
    rw [if_pos hblank]
    exact ⟨rfl, rfl, rfl⟩
  case isFalse hblank =>
    rw [if_neg hblank]
    obtain ⟨log₁, log₂, _, rfl, h₁, h₂⟩ := leads_run_bind h
    obtain ⟨rfl, rfl⟩ := leads_run_pure h₂
    rw [List.append_nil]
    exact record_tells h₁ (fun _ => rfl) fun _ => rfl

/-! ## Rounds -/

/-- A round is begun and breaks off, or is whole and the run proceeds. -/
def Round.Ends (m : Mission) (left made : Nat) (r : Round) (log : Log) (o : Outcome) : Prop :=
  (r.IsBegun ∧ ∃ e, (e = .timeout ∨ e = .cancelled) ∧
    Leads (m.interrupt e made).run log (.done (.ok o))) ∨
  (r.IsWhole ∧ ∃ said, Leads (m.proceed left made said).run log (.done (.ok o)))

/-- A reply that asks for calls makes a round. -/
theorem follow_tells {m : Mission} {r : Model.Reply} {left made : Nat} {before : Option String}
    {log : Log} {o : Outcome} (hcalls : r.calls ≠ [])
    (h : Leads (m.follow r left made before).run log (.done (.ok o))) :
    ∃ results first second, log = first ++ second ∧
      Tells m.session first (Round.said ⟨r, results⟩) [] ∧
      Round.Ends m left made ⟨r, results⟩ second o := by
  obtain ⟨log₁, rest₁, said, rfl, h₁, g₁⟩ := leads_run_bind h
  obtain ⟨log₂, second, stop, rfl, h₂, g₂⟩ := leads_run_bind g₁
  obtain ⟨results, hpairs, hstop⟩ := dispatchAll_tells h₂
  refine ⟨results, log₁ ++ log₂, second, (List.append_assoc ..).symm,
    (remark_tells h₁).append hpairs, ?_⟩
  cases stop with
  | some e => exact .inl ⟨⟨hstop.1, hstop.2.1⟩, e, hstop.2.2, g₂⟩
  | none => exact .inr ⟨⟨hcalls, hstop⟩, said, g₂⟩

/-- A look at the session leaves no trace. -/
theorem remembered_tells {m : Mission} {log : Log} {session : Session}
    (h : Leads m.remembered.run log (.done (.ok session))) : Tells m.session log [] [] := by
  obtain ⟨log₁, log₂, found, rfl, h₁, h₂⟩ := leads_run_bind h
  have hlook := leads_request (leads_run_lift h₁)
  subst hlook
  cases (found : Option (Session × Bool)) with
  | none => cases (leads_done h₂).2
  | some found =>
    obtain ⟨rfl, -⟩ := leads_run_pure h₂
    exact ⟨rfl, rfl, rfl⟩

theorem length_of_map_replyOf {heard : List (Except Model.Failure Model.Stream)}
    {r : Option Model.Reply} (h : heard.map replyOf = [r]) : heard.length = 1 := by
  rw [← List.length_map replyOf, h]
  rfl

/-- The account of a run that was interrupted before its next round. -/
theorem fits_interrupted {o : Outcome} {heard : List (Except Model.Failure Model.Stream)}
    {limit : Nat} (hlimit : heard.length ≤ limit)
    (hending : o.ending = .timeout ∨ o.ending = .cancelled) (hreply : o.reply = none) :
    Account.Fits ⟨[], none⟩ o heard limit where
  whole := nofun
  broken := nofun
  replies := List.nil_prefix
  limited := hlimit
  ended := by
    rcases hending with h | h <;> rw [h] <;> exact hreply

/-- A run that ends without another round. -/
def EndsAtOnce (m : Mission) (made : Nat) (log : Log) (o : Outcome) (limit : Nat) : Prop :=
  ∃ heard, Tells m.session log (Account.closing o) heard ∧
    Account.Fits ⟨[], none⟩ o heard limit ∧ o.session = m.session ∧ o.iterations = made

theorem interrupted_at_once {m : Mission} {made limit : Nat} {e : Ending} {first second : Log}
    {o : Outcome} {heard : List (Except Model.Failure Model.Stream)}
    (he : e = .timeout ∨ e = .cancelled) (hlimit : heard.length ≤ limit)
    (hfirst : Tells m.session first [] heard)
    (h : Leads (m.interrupt e made).run second (.done (.ok o))) :
    EndsAtOnce m made (first ++ second) o limit := by
  obtain ⟨rfl, hnote⟩ := interrupt_tells h
  refine ⟨heard, ?_, fits_interrupted hlimit he rfl, rfl, rfl⟩
  rw [Account.closing_interrupted he]
  exact hfirst.answered hnote

/-- **One round** ends the run, or is begun and breaks off, or is whole and the run proceeds. -/
theorem round_tells {m : Mission} {left made : Nat} {before : Option String} {log : Log}
    {o : Outcome} (h : Leads (m.rounds left made before).run log (.done (.ok o))) :
    EndsAtOnce m made log o (left + 1) ∨
    ∃ (r : Round) (heard : List (Except Model.Failure Model.Stream)) (first second : Log),
      log = first ++ second ∧ Tells m.session first r.said heard ∧
      heard.map replyOf = [some r.reply] ∧ r.Ends m left made second o := by
  rw [Mission.rounds_eq] at h
  obtain ⟨log₁, rest₁, cancelled, rfl, h₁, g₁⟩ := leads_run_bind h
  have looked := inquire_tells m.session (r := .isCancelled _) trivial h₁
  split at g₁
  · exact .inl (interrupted_at_once (.inr rfl) (Nat.zero_le _) looked g₁)
  obtain ⟨log₂, rest₂, session, rfl, h₂, g₂⟩ := leads_run_bind g₁
  obtain ⟨log₃, rest₃, asked, rfl, h₃, g₃⟩ := leads_run_bind g₂
  obtain ⟨heard, hheard, hasked⟩ := consult_tells m.session (leads_run_lift h₃)
  have hbefore : Tells m.session (log₁ ++ (log₂ ++ log₃)) [] heard :=
    looked.append ((remembered_tells h₂).append hheard)
  rw [← List.append_assoc log₂, ← List.append_assoc log₁]
  cases asked with
  | timeout =>
    exact .inl (interrupted_at_once (.inl rfl) (Nat.le_trans hasked (Nat.le_add_left ..))
      hbefore g₃)
  | cancelled =>
    exact .inl (interrupted_at_once (.inr rfl) (Nat.le_trans hasked (Nat.le_add_left ..))
      hbefore g₃)
  | failed f =>
    obtain ⟨⟨e, rfl⟩, hsilent⟩ := giveUp_tells g₃
    refine .inl ⟨heard, hbefore.answered hsilent,
      ⟨nofun, nofun, List.nil_prefix, ?_, ⟨hasked, rfl⟩⟩, rfl, rfl⟩
    rw [length_of_map_replyOf hasked]
    exact Nat.le_add_left ..
  | reply r =>
    change Leads (ExceptT.run (if r.isFinal = true then _ else _)) _ _ at g₃
    split at g₃
    case isTrue hfinal =>
      obtain ⟨rfl, hreply⟩ := conclude_tells g₃
      refine .inl ⟨heard, hbefore.answered hreply, ⟨nofun, nofun, List.nil_prefix, ?_,
        ⟨r, hasked, List.isEmpty_iff.1 hfinal, rfl⟩⟩, rfl, rfl⟩
      rw [length_of_map_replyOf hasked]
      exact Nat.le_add_left ..
    case isFalse hfinal =>
      have hcalls : r.calls ≠ [] := fun hnil => hfinal (List.isEmpty_iff.2 hnil)
      obtain ⟨results, first, second, rfl, hround, hends⟩ := follow_tells hcalls g₃
      exact .inr ⟨⟨r, results⟩, heard, log₁ ++ (log₂ ++ log₃) ++ first, second,
        (List.append_assoc ..).symm, hbefore.answered hround, hasked, hends⟩

/-- The log of a part of a run has an account, from `made` rounds on. -/
def Recounts (m : Mission) (made : Nat) (log : Log) (o : Outcome) (limit : Nat) : Prop :=
  ∃ (a : Account) (heard : List (Except Model.Failure Model.Stream)),
    Tells m.session log (a.turns o) heard ∧ a.Fits o heard limit ∧
      o.session = m.session ∧ o.iterations = made + a.rounds.length

/-- A whole round before a part that has an account. -/
theorem Recounts.cons {m : Mission} {made limit : Nat} {first second : Log} {o : Outcome}
    {r : Round} {heard : List (Except Model.Failure Model.Stream)} (hr : r.IsWhole)
    (hheard : heard.map replyOf = [some r.reply]) (hfirst : Tells m.session first r.said heard)
    (hsecond : Recounts m (made + 1) second o limit) :
    Recounts m made (first ++ second) o (limit + 1) := by
  obtain ⟨a, more, hsaid, hfits, hsession, hmade⟩ := hsecond
  refine ⟨{ a with rounds := r :: a.rounds }, heard ++ more, ?_, hfits.cons hr hheard, hsession, ?_⟩
  · have hall := hfirst.append hsaid
    rw [Account.turns, ← List.append_assoc, ← List.append_assoc] at hall
    exact hall
  · rw [hmade, List.length_cons]
    omega

/-- A round that breaks off is the last of its account. -/
theorem recounts_broken {m : Mission} {made limit : Nat} {e : Ending} {first second : Log}
    {o : Outcome} {r : Round} {heard : List (Except Model.Failure Model.Stream)}
    (hr : r.IsBegun) (hheard : heard.map replyOf = [some r.reply])
    (hfirst : Tells m.session first r.said heard) (he : e = .timeout ∨ e = .cancelled)
    (hsecond : Leads (m.interrupt e made).run second (.done (.ok o))) :
    Recounts m made (first ++ second) o (limit + 1) := by
  obtain ⟨rfl, hnote⟩ := interrupt_tells hsecond
  have hall := hfirst.append hnote
  refine ⟨⟨[], some r⟩, heard, ?_, ⟨nofun, ?_, ?_, ?_, ?_⟩, rfl, rfl⟩
  · rw [Account.turns, Account.closing_interrupted he]
    simpa using hall
  · intro r' hr'
    cases hr'
    exact ⟨hr, he⟩
  · rw [hheard]
    exact List.prefix_rfl
  · rw [length_of_map_replyOf hheard]
    exact Nat.le_add_left ..
  · rcases he with rfl | rfl <;> rfl

/-- **The rounds of a run**, from any of them on, leave what an account of them says. -/
theorem rounds_recounts {m : Mission} {left made : Nat} {before : Option String} {log : Log}
    {o : Outcome} (h : Leads (m.rounds left made before).run log (.done (.ok o))) :
    Recounts m made log o (left + 1) := by
  induction left generalizing made before log with
  | zero =>
    rcases round_tells h with ⟨heard, hsaid, hfits, hsession, hmade⟩ |
      ⟨r, heard, first, second, rfl, hround, hheard, ⟨hr, e, he, hnote⟩ | ⟨hr, said, hlast⟩⟩
    · exact ⟨⟨[], none⟩, heard, hsaid, hfits, hsession, hmade⟩
    · exact recounts_broken hr hheard hround he hnote
    · refine .cons hr hheard hround ?_
      obtain ⟨rfl, hreply⟩ := conclude_tells hlast
      exact ⟨⟨[], none⟩, [], hreply, ⟨nofun, nofun, List.nil_prefix, Nat.le_refl _, rfl, rfl, rfl⟩,
        rfl, rfl⟩
  | succ left ih =>
    rcases round_tells h with ⟨heard, hsaid, hfits, hsession, hmade⟩ |
      ⟨r, heard, first, second, rfl, hround, hheard, ⟨hr, e, he, hnote⟩ | ⟨hr, said, hlast⟩⟩
    · exact ⟨⟨[], none⟩, heard, hsaid, hfits, hsession, hmade⟩
    · exact recounts_broken hr hheard hround he hnote
    · exact .cons hr hheard hround (ih hlast)

/-! ## The whole run -/

theorem answer_recounts {m : Mission} {text : String} {log : Log} {o : Outcome}
    (h : Leads (m.answer text).run log (.done (.ok o))) :
    ∃ first second, log = first ++ second ∧ Tells m.session first [(.user, .text text)] [] ∧
      Recounts m 0 second o (max 1 m.setup.config.maxIterations) := by
  obtain ⟨first, second, _, rfl, h₁, h₂⟩ := leads_run_bind h
  have hlimit : m.setup.config.maxIterations - 1 + 1 = max 1 m.setup.config.maxIterations := by
    omega
  refine ⟨first, second, rfl, record_tells h₁ (fun _ => rfl) fun _ => rfl, ?_⟩
  rw [← hlimit]
  exact rounds_recounts h₂

/-- The rounds of an account are no more than the answers of the model. -/
theorem Account.Fits.length_le {a : Account} {o : Outcome}
    {heard : List (Except Model.Failure Model.Stream)} {limit : Nat} (h : a.Fits o heard limit) :
    a.rounds.length ≤ heard.length := by
  have hle := h.replies.length_le
  rw [Account.replies, List.length_map, List.length_map, List.length_append] at hle
  omega

/-- A run with its lock resolves its session once, and then writes it. -/
theorem runLocked_recounts {setup : Setup} {i : Identity} {text : String} {token : Token}
    {log : Log} {o : Outcome} (h : Leads (runLocked setup i text token) log (.done (.ok o))) :
    ∃ (a : Account) (rest : Log) (heard : List (Except Model.Failure Model.Stream)),
      log = ⟨.store (.resolve i), (.ok o.session : Except Error SessionKey)⟩ :: rest ∧
      Tells o.session rest ((.user, .text text) :: a.turns o) heard ∧
      a.Fits o heard (max 1 setup.config.maxIterations) ∧ o.iterations = a.rounds.length := by
  obtain ⟨key, start, middle, u, rfl, hmiddle⟩ := leads_runLocked h
  obtain ⟨first, second, rfl, hmessage, a, heard, hsaid, hfits, hsession, hmade⟩ :=
    answer_recounts hmiddle
  subst hsession
  have hstart : Tells o.session [⟨.time, start⟩] [] [] := ⟨rfl, rfl, rfl⟩
  have hended : Tells o.session [⟨.emit (.ended o.ending), u⟩] [] [] := ⟨rfl, rfl, rfl⟩
  have hall := hstart.append ((hmessage.append hsaid).append hended)
  rw [List.append_nil, List.append_nil] at hall
  rw [Nat.zero_add] at hmade
  exact ⟨a, _, heard, rfl, hall, hfits, hmade⟩

/-- **A run that comes to an outcome writes its session by the grammar.**  The session is the one
that its identity was resolved to, all its turns go there, and they are the message, the rounds and
the end.  The outcome counts the whole rounds, and neither they nor the calls of the model exceed
the limit, where a limit of zero counts as one. -/
theorem run_recounts {setup : Setup} {i : Identity} {text : String} {token : Token} {log : Log}
    {o : Outcome} (h : Leads (run setup i text token) log (.done (.ok o))) :
    ∃ a : Account, resolved log = [(i, .ok o.session)] ∧
      added log = ((.user, .text text) :: a.turns o).map (Prod.mk o.session) ∧
      a.Fits o (answers log) (max 1 setup.config.maxIterations) ∧
      o.iterations = a.rounds.length ∧
      o.iterations ≤ max 1 setup.config.maxIterations ∧
      (answers log).length ≤ max 1 setup.config.maxIterations := by
  obtain ⟨lock, rest₁, rfl, h₁⟩ := leads_ask h
  obtain ⟨taken, rest₂, rfl, h₂⟩ := leads_ask h₁
  obtain ⟨inner, rest₃, result, rfl, h₃, h₄⟩ :=
    leads_bind (p := runLocked setup i text token) h₂
  obtain ⟨freed, rest₄, rfl, h₅⟩ := leads_ask h₄
  obtain ⟨dropped, rest₅, rfl, h₆⟩ := leads_ask h₅
  obtain ⟨swept, rest₆, rfl, h₇⟩ := leads_ask h₆
  obtain ⟨rfl, hsame⟩ := leads_done h₇
  cases hsame
  obtain ⟨a, rest, heard, rfl, hsaid, hfits, hmade⟩ := runLocked_recounts h₃
  have hafter : Tells o.session
      [⟨.freeLock lock, freed⟩, ⟨.dropLock lock, dropped⟩, ⟨.sweepLock i, swept⟩] [] [] :=
    ⟨rfl, rfl, rfl⟩
  have hall := hsaid.append hafter
  rw [List.append_nil, List.append_nil] at hall
  have hheard : answers (⟨.fetchLock i, lock⟩ :: ⟨.takeLock lock, taken⟩ ::
      (⟨.store (.resolve i), (.ok o.session : Except Error SessionKey)⟩ :: rest ++ _)) = heard :=
    hall.answers
  rw [hheard]
  refine ⟨a, ?_, hall.added, hfits, hmade, ?_, hfits.limited⟩
  · exact congrArg ((i, .ok o.session) :: ·) hall.resolved
  · rw [hmade]
    exact Nat.le_trans hfits.length_le hfits.limited

/-- A run of one round, whose call names no tool. -/
theorem run_recounts_limit_of_one :
    let p := run { config := { maxIterations := 1 } } ⟨"cli", "local"⟩ "hello" 0
    let log := ((World.rehearsal [.calls "" [("none", .null)]]).course 50 p).2.1
    let o : Outcome :=
      { session := ⟨"cli:local"⟩, ending := .iterationLimit, iterations := 1
        reply := some "Reached the limit of 1 tool iterations before finishing." }
    Leads p log (.done (.ok o)) ∧ (added log).length = 4 ∧
      ∃ a : Account, resolved log = [(⟨"cli", "local"⟩, .ok o.session)] ∧
        added log = ((.user, .text "hello") :: a.turns o).map (Prod.mk o.session) ∧
        a.Fits o (answers log) 1 ∧ o.iterations = a.rounds.length ∧ o.iterations ≤ 1 ∧
        (answers log).length ≤ 1 := by
  intro p log o
  have h : Leads p log (.done (.ok o)) := leads_of_value (by decide +kernel)
  exact ⟨h, by decide +kernel, run_recounts h⟩

end Parley.Agent
