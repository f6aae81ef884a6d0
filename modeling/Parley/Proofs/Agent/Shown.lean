import Parley.Proofs.Agent.Pool
import Parley.Proofs.Context.Conversation
import Parley.Proofs.Session.Transcript

/-!
# What the model is shown

Every request to the model holds a conversation as a service accepts it, when the session is
written by runs of one identity only.

## One run

While a run of the identity is inside, nobody else writes the session.  What the run may rely on is
the contract `watching`: its turns are added to the transcript, looking at the session shows the
transcript, and the model may be asked only for a conversation.  The transcript is *settled* when
it is empty or begun by the user with each call next to its result.  A run finds it settled and
leaves it settled, however it ends (`runLocked_keeps`); in between it is *ready* whenever the model
is asked (`rounds_keeps`).

## All runs

`WrittenBy` is the history of a pool in which no step but those of one identity changes the
transcript.  The transcript is settled whenever no run of the identity is inside
(`Watched.step`), because at most one is, and so every request is a conversation
(`isConversation_of_writtenBy`).
-/

namespace Parley.Agent

open Program Context

/-! ## The contract -/

/-- What there is to know of a run and a transcript. -/
structure Watch where
  /-- Whether the run has the session as its own. -/
  mine : Prop
  transcript : List Turn

/-- The transcript may be looked at and written, and the model may be asked for a conversation. -/
def watching (i : Identity) (key : SessionKey) : Contract interface Watch where
  allows w r :=
    match r with
    | .askModel r => w.mine → Model.IsConversation r.conversation
    | _ => True
  moves w r a w' :=
    match r, a with
    | .store (.resolve j), a =>
      w'.transcript = w.transcript ∧ w'.mine = (w.mine ∨ (j, a) = (i, .ok key))
    | .store (.append k t), a =>
      if k = key then
        (∃ stamp, a = .ok () ∧
          w' = { w with transcript := w.transcript ++ [{ t with timestamp := stamp }] }) ∨
        (∃ e, a = .error e ∧ w' = w ∧ w.transcript = [])
      else w' = w
    | .store (.get k), a =>
      w' = w ∧ (k = key → ∀ session active, a = some (session, active) →
        session.transcript = w.transcript)
    | _, _ => w' = w

section Mission

variable {m : Mission} {i : Identity} {w : Watch}

/-- What a run leaves. -/
def leavesSettled {α : Type} (w : Watch) (_ : α) : Prop := IsSettled w.transcript

/-! ## Parts of a run -/

theorem aside_keeps {α : Type} {p : Program interface α} {key : SessionKey}
    {post : Watch → α → Prop} (hp : p.AsksOnly Request.IsAside) (hpost : ∀ a, post w a) :
    p.Keeps (watching i key) post w := by
  refine hp.keeps (fun r hr => ?_) (fun r hr a w' h => ?_) hpost
  · cases r <;> first | exact hr.elim | trivial
  · cases r <;> first | exact hr.elim | exact h

theorem inquire_keeps {r : Request} {key : SessionKey} {post : Watch → Except Error r.Answer → Prop}
    (hr : r.IsAside) (hpost : ∀ a, post w (.ok a)) :
    (inquire r).run.Keeps (watching i key) post w :=
  keeps_run_lift (aside_keeps (asksOnly_ask hr) hpost)

/-- Recording a turn adds it, unless the transcript was empty and stays so. -/
theorem record_keeps {key : SessionKey} {turn : Timestamp → Turn}
    {post : Watch → Except Error Unit → Prop}
    (hok : ∀ now stamp, post { w with
      transcript := w.transcript ++ [{ turn now with timestamp := stamp }] } (.ok ()))
    (herror : w.transcript = [] → ∀ e, post w (.error e)) :
    (record key turn).run.Keeps (watching i key) post w := by
  refine keeps_run_bind (inquire_keeps trivial fun now => ⟨trivial, fun a w' h => ?_⟩)
  rcases (if_pos (c := key = key) rfl).mp h with ⟨stamp, rfl, rfl⟩ | ⟨e, rfl, rfl, hempty⟩
  · exact hok now stamp
  · exact herror hempty e

/-- Recording words of the assistant. -/
theorem record_assistant_keeps {text : String} {post : Watch → Except Error Unit → Prop}
    (hw : IsBegun w.transcript)
    (hpost : ∀ w', IsBegun w'.transcript → w'.mine = w.mine → post w' (.ok ())) :
    (record m.session (.assistant text)).run.Keeps (watching i m.session) post w :=
  record_keeps (fun _ stamp => hpost _ (hw.assistant text stamp) rfl)
    fun hempty => absurd hempty hw.ne_nil

theorem interrupt_keeps {e : Ending} {made : Nat} (hw : IsBegun w.transcript) :
    (m.interrupt e made).run.Keeps (watching i m.session) leavesSettled w :=
  keeps_run_bind (record_assistant_keeps hw fun _ h _ => .inr h)

theorem conclude_keeps {e : Ending} {made : Nat} {reply : String} (hw : IsBegun w.transcript) :
    (m.conclude e made reply).run.Keeps (watching i m.session) leavesSettled w :=
  keeps_run_bind (record_assistant_keeps hw fun _ h _ =>
    keeps_run_bind (inquire_keeps trivial fun _ => .inr h))

theorem giveUp_keeps {made : Nat} {f : Model.Failure} (hw : IsBegun w.transcript) :
    (m.giveUp made f).run.Keeps (watching i m.session) leavesSettled w :=
  keeps_run_bind (inquire_keeps trivial fun _ => .inr hw)

theorem remark_keeps {text : String} {before : Option String}
    {post : Watch → Except Error (Option String) → Prop} (hw : IsBegun w.transcript)
    (hpost : ∀ w' said, IsBegun w'.transcript → post w' (.ok said)) :
    (m.remark text before).run.Keeps (watching i m.session) post w := by
  unfold Mission.remark
  split
  · exact hpost w _ hw
  · exact keeps_run_bind (record_assistant_keeps hw fun w' h _ => hpost w' _ h)

/-- A call and its result are added together, and the transcript is ready after them. -/
theorem dispatch_keeps {c : Model.ToolCall} {post : Watch → Except Error (Option Ending) → Prop}
    (hw : IsBegun w.transcript) (hpost : ∀ w' stop, IsReady w'.transcript → post w' (.ok stop)) :
    (m.dispatch c).run.Keeps (watching i m.session) post w := by
  refine keeps_run_bind (inquire_keeps trivial fun _ => ?_)
  refine keeps_run_bind (record_keeps (fun now₁ stamp₁ => ?_) fun hempty => absurd hempty hw.ne_nil)
  refine keeps_run_bind (keeps_run_lift (aside_keeps (invoke_asksOnly m c) fun attended => ?_))
  refine keeps_run_bind (inquire_keeps trivial fun _ => ?_)
  refine keeps_run_bind (record_keeps (fun now₂ stamp₂ => ?_) fun hempty => ?_)
  · have hready := hw.call
      (c := { Turn.toolCall c.id c.name c.arguments now₁ with timestamp := stamp₁ })
      (r := { Turn.toolResult c.id c.name
        (Tool.clipOutput m.setup.config.maxToolResultChars attended.result.content)
        attended.result.status now₂ with timestamp := stamp₂ }) rfl rfl rfl rfl
    refine keeps_run_bind (inquire_keeps trivial fun _ => ?_)
    show (ExceptT.run
      (if attended.timedOut = true then _ else _ : Part (Option Ending))).Keeps _ _ _
    split
    · exact hpost _ _ hready
    · exact keeps_run_bind (inquire_keeps trivial fun _ => hpost _ _ hready)
  · exact absurd hempty (List.append_ne_nil_of_right_ne_nil _ (List.cons_ne_nil _ _))

/-- After calls the transcript is ready, if there were any or it was ready before. -/
theorem dispatchAll_keeps {calls : List Model.ToolCall}
    {post : Watch → Except Error (Option Ending) → Prop} (hw : IsBegun w.transcript)
    (hcalls : calls ≠ [] ∨ IsReady w.transcript)
    (hpost : ∀ w' stop, IsReady w'.transcript → post w' (.ok stop)) :
    (m.dispatchAll calls).run.Keeps (watching i m.session) post w := by
  induction calls generalizing w with
  | nil =>
    refine hpost w none ?_
    rcases hcalls with hcalls | hready
    · exact absurd rfl hcalls
    · exact hready
  | cons c calls ih =>
    refine keeps_run_bind (dispatch_keeps hw fun w' stop hready => ?_)
    cases stop with
    | some e => exact hpost w' _ hready
    | none => exact ih hready.toIsBegun (.inr hready)

/-- Looking at the session shows the transcript. -/
theorem remembered_keeps {post : Watch → Except Error Session → Prop}
    (hsession : ∀ session, session.transcript = w.transcript → post w (.ok session))
    (hnone : ∀ e, post w (.error e)) :
    m.remembered.run.Keeps (watching i m.session) post w := by
  refine keeps_run_bind (keeps_run_lift ⟨trivial, fun found w' h => ?_⟩)
  obtain ⟨rfl, hfound⟩ := h
  rcases (found : Option (Session × Bool)) with _ | ⟨session, active⟩
  · exact hnone _
  · exact hsession session (hfound rfl session active rfl)

/-- The model may be asked for a conversation. -/
theorem consult_keeps {deadline : Option Nat} {r : Model.Request} {key : SessionKey}
    {post : Watch → Asked → Prop} (hr : Model.IsConversation r.conversation)
    (hpost : ∀ asked, post w asked) :
    (consult m.token deadline r).Keeps (watching i key) post w := by
  refine ⟨trivial, fun now w₁ h₁ => ?_⟩
  obtain rfl : w₁ = w := h₁
  refine ⟨trivial, fun awake w₂ h₂ => ?_⟩
  obtain rfl : w₂ = w₁ := h₂
  show (if awake.expired then _ else _ : Program interface Asked).Keeps _ _ _
  split
  · exact hpost _
  split
  · exact hpost _
  refine ⟨fun _ => hr, fun answer w₃ h₃ => ?_⟩
  obtain rfl : w₃ = w₂ := h₃
  cases answer with
  | error f => exact hpost _
  | ok stream => exact aside_keeps (listen_asksOnly _ _ _ _) hpost

/-! ## A run -/

/-- A round with a ready transcript asks for a conversation, and leaves the transcript ready for
how the run proceeds. -/
theorem round_keeps {left made : Nat} {before : Option String} (hw : IsReady w.transcript)
    (hproceed : ∀ w' said, IsReady w'.transcript →
      (m.proceed left made said).run.Keeps (watching i m.session) leavesSettled w') :
    (m.rounds left made before).run.Keeps (watching i m.session) leavesSettled w := by
  rw [Mission.rounds_eq]
  refine keeps_run_bind (inquire_keeps trivial fun cancelled => ?_)
  dsimp only
  split
  · exact interrupt_keeps hw.toIsBegun
  refine keeps_run_bind (remembered_keeps (fun session hsession => ?_) fun _ => .inr hw.toIsBegun)
  have hshown : Model.IsConversation (m.request session.transcript).conversation := by
    rw [hsession]
    exact isConversation_build rfl hw
  refine keeps_run_bind (keeps_run_lift (consult_keeps hshown fun asked => ?_))
  cases asked with
  | timeout => exact interrupt_keeps hw.toIsBegun
  | cancelled => exact interrupt_keeps hw.toIsBegun
  | failed f => exact giveUp_keeps hw.toIsBegun
  | reply r =>
    show (ExceptT.run (if r.isFinal = true then _ else _ : Part Outcome)).Keeps _ _ _
    split
    · exact conclude_keeps hw.toIsBegun
    case isFalse hfinal =>
      have hcalls : r.calls ≠ [] := fun hnil => hfinal (List.isEmpty_iff.2 hnil)
      refine keeps_run_bind (remark_keeps hw.toIsBegun fun w₁ said hbegun => ?_)
      refine keeps_run_bind (dispatchAll_keeps hbegun (.inl hcalls) fun w₂ stop hready => ?_)
      cases stop with
      | some e => exact interrupt_keeps hready.toIsBegun
      | none => exact hproceed w₂ said hready

/-- **The rounds of a run ask for conversations.** -/
theorem rounds_keeps {left made : Nat} {before : Option String} (hw : IsReady w.transcript) :
    (m.rounds left made before).run.Keeps (watching i m.session) leavesSettled w := by
  induction left generalizing made before w with
  | zero => exact round_keeps hw fun w' said hready => conclude_keeps hready.toIsBegun
  | succ left ih => exact round_keeps hw fun w' said hready => ih hready

theorem answer_keeps {text : String} (hw : IsSettled w.transcript) :
    (m.answer text).run.Keeps (watching i m.session) leavesSettled w := by
  refine keeps_run_bind (record_keeps (fun now stamp => ?_) fun hempty e => .inl hempty)
  exact rounds_keeps (hw.user text stamp)

/-- A run of another session leaves the transcript alone. -/
theorem elsewhere_keeps {α : Type} {p : Program interface α} {k key : SessionKey}
    {post : Watch → α → Prop} (hk : k ≠ key) (hmine : ¬w.mine) (hp : p.AsksOnly (Request.IsFor k))
    (hpost : ∀ a, post w a) : p.Keeps (watching i key) post w := by
  refine hp.keeps (fun r hr => ?_) (fun r hr a w' h => ?_) hpost
  · cases r <;> first | exact hr.elim | exact fun h => absurd h hmine | trivial
  · cases r with
    | store r =>
      cases r with
      | append k' t =>
        have hne : k' ≠ key := fun h => hk ((show k' = k from hr).symm.trans h)
        exact (if_neg hne).mp h
      | get k' => exact h.1
      | _ => exact hr.elim
    | _ => first | exact hr.elim | exact h

/-- **A run that finds the transcript settled leaves it settled**, and asks for conversations if
the session is its own. -/
theorem runLocked_keeps {setup : Setup} {text : String} {token : Token} {key : SessionKey}
    (hw : IsSettled w.transcript) (hmine : ¬w.mine) :
    (runLocked setup i text token).Keeps (watching i key) leavesSettled w := by
  refine ⟨trivial, fun resolved w' hresolved => ?_⟩
  obtain ⟨htranscript, hresolved⟩ := hresolved
  have hsettled : IsSettled w'.transcript := by rwa [htranscript]
  cases (resolved : Except Error SessionKey) with
  | error e => exact hsettled
  | ok k =>
    refine ⟨trivial, fun start w₁ h₁ => ?_⟩
    obtain rfl : w₁ = w' := h₁
    have hanswer (deadline : Nat) :
        (Mission.answer ⟨setup, i, k, token, deadline⟩ text).run.Keeps (watching i key)
          (fun w₂ _ => IsSettled w₂.transcript) w₁ := by
      by_cases hk : k = key
      · subst hk
        exact answer_keeps hsettled
      · have hnot : ¬w₁.mine := by
          rw [hresolved]
          rintro (h | h)
          · exact hmine h
          · exact hk (Except.ok.inj (Prod.mk.inj h).2)
        exact elsewhere_keeps hk hnot (answer_asksOnly text) fun _ => hsettled
    refine keeps_bind (p := (Mission.answer ⟨setup, i, k, token, _⟩ text).run)
      ((hanswer _).mono fun w₂ result h => ?_)
    cases result with
    | ok o => exact aside_keeps ⟨trivial, fun _ => trivial⟩ fun _ => h
    | error e => exact aside_keeps ⟨trivial, fun _ => ⟨trivial, fun _ => trivial⟩⟩ fun _ => h

end Mission

/-! ## All runs -/

section Watched

variable {i : Identity} {key : SessionKey}

/-- What is known of a run by its log. -/
def watchOf (i : Identity) (key : SessionKey) (log : Log) (s : Store) : Watch :=
  ⟨(i, .ok key) ∈ resolved log, s.said key⟩

theorem resolved_append_of_unread {log : Log} {x : interface.Inquiry}
    (hx : resolved? x = none) : resolved (log ++ [x]) = resolved log := by
  rw [resolved, List.filterMap_append, List.filterMap_cons_none hx]
  exact List.append_nil _

theorem watchOf_append {s s' : Store} {log : Log} {x : interface.Inquiry}
    (hx : resolved? x = none) (hs : s'.said key = s.said key) :
    watchOf i key (log ++ [x]) s' = watchOf i key log s := by
  rw [watchOf, resolved_append_of_unread hx, hs, watchOf]

theorem said_of_stores {c c' : Commons} {r : StoreRequest} {a : r.Answer} (hr : r.IsQuiet)
    (h : c.Stores r a c') : c'.store.said = c.store.said := by
  obtain ⟨now, hanswer, -⟩ := h
  rw [← Store.said_answer_of_isQuiet c.store now hr, hanswer]

/-- What a run puts to the store from inside changes no transcript, unless it adds a turn. -/
theorem isQuiet_of_isInner {r : Request} {q : StoreRequest} (hr : r.IsInner i)
    (hadds : ∀ k t, r ≠ .store (.append k t)) (hq : r.storeRequest? = some q) : q.IsQuiet := by
  rcases hr with rfl | ⟨k, hr⟩
  · cases hq
    trivial
  cases r with
  | store r =>
    cases hq
    cases q with
    | append k' t => exact absurd rfl (hadds k' t)
    | get => trivial
    | _ => exact hr.elim
  | tool r => cases r <;> cases hq <;> trivial
  | _ => cases hq

theorem said_of_isInner {c c' : Commons} {r : Request} {a : r.Answer} (hr : r.IsInner i)
    (hadds : ∀ k t, r ≠ .store (.append k t)) (ha : c.Answers r a c') :
    c'.store.said = c.store.said := by
  rcases ha.cases with ⟨q, b, hq, hstores⟩ | ⟨-, hstore, -⟩
  · exact said_of_stores (isQuiet_of_isInner hr hadds hq) hstores
  · rw [hstore]

/-- In memory a turn is added, or there is no session to add it to. -/
theorem moves_of_append {c c' : Commons} {log : Log} {k : SessionKey} {t : Turn}
    {a : Except Error Unit} (hdisk : c.store.disk = none) (ha : c.Stores (.append k t) a c') :
    (watching i key).moves (watchOf i key log c.store) (.store (.append k t)) a
      (watchOf i key (log ++ [⟨.store (.append k t), a⟩]) c'.store) := by
  obtain ⟨now, hanswer, -⟩ := ha
  have ha : a = (c.store.append k t now).1 := congrArg Prod.fst hanswer.symm
  have hc : c'.store = (c.store.append k t now).2 := congrArg Prod.snd hanswer.symm
  show if k = key then _ else _
  split
  case isTrue hk =>
    subst hk
    rcases Store.append_inMemory hdisk k t now with ⟨stamp, hok, hsaid, -⟩ | ⟨e, herror, hnone⟩
    · refine .inl ⟨stamp, ha.trans hok, ?_⟩
      rw [watchOf, resolved_append_of_unread rfl, hc, hsaid]
      rfl
    · rw [herror] at ha hc
      exact .inr ⟨e, ha, watchOf_append rfl (by rw [hc]), hnone⟩
  case isFalse hk =>
    refine watchOf_append rfl ?_
    rw [hc]
    rcases Store.append_inMemory hdisk k t now with ⟨stamp, -, -, hother⟩ | ⟨e, herror, -⟩
    · exact hother key (Ne.symm hk)
    · rw [herror]

/-- **The store in memory does what the contract says.** -/
theorem moves_of_answers {c c' : Commons} {log : Log} {r : Request} {a : r.Answer}
    (hdisk : c.store.disk = none) (hr : r.IsInner i) (ha : c.Answers r a c') :
    (watching i key).moves (watchOf i key log c.store) r a
      (watchOf i key (log ++ [⟨r, a⟩]) c'.store) := by
  by_cases hadds : ∃ k t, r = .store (.append k t)
  · obtain ⟨k, t, rfl⟩ := hadds
    exact moves_of_append hdisk ha
  have hsaid : c'.store.said key = c.store.said key :=
    congrFun (said_of_isInner hr (fun k t h => hadds ⟨k, t, h⟩) ha) key
  rcases hr with rfl | ⟨k, hr⟩
  · refine ⟨hsaid, propext ?_⟩
    show (i, .ok key) ∈ resolved (log ++ [_]) ↔ _
    rw [resolved, List.filterMap_append, List.mem_append]
    refine or_congr Iff.rfl (Iff.trans List.mem_singleton ?_)
    exact ⟨Eq.symm, Eq.symm⟩
  cases r with
  | store r =>
    cases r with
    | append k' t => exact absurd ⟨k', t, rfl⟩ hadds
    | get k' =>
      obtain ⟨now, hanswer, -⟩ := ha
      have ha : a = c.store.get? k' := congrArg Prod.fst hanswer.symm
      refine ⟨watchOf_append rfl hsaid, ?_⟩
      rintro rfl session active hsome
      exact Store.transcript_of_get? (ha.symm.trans hsome)
    | _ => exact hr.elim
  | fetchLock | takeLock | freeLock | dropLock | sweepLock => exact hr.elim
  | cancel | deliver | announce | channels | track | untrack | sweepTracked | abort =>
    exact hr.elim
  | _ => exact watchOf_append rfl hsaid

/-- What is shared stays in memory. -/
theorem disk_of_answers {c c' : Commons} {r : Request} {a : r.Answer}
    (h : c.store.disk = none) (ha : c.Answers r a c') : c'.store.disk = none := by
  rcases ha.cases with ⟨q, b, -, now, hanswer, -⟩ | ⟨-, hstore, -⟩
  · have hdisk := Store.disk_answer h now q
    rwa [hanswer] at hdisk
  · rw [hstore]
    exact h

/-- A pool in which no run of the identity is inside with the transcript unsettled, and whoever is
inside keeps the contract. -/
structure Watched (i : Identity) (key : SessionKey) (p : Pool) (staged : List (Member × Stage)) :
    Prop extends Staged p staged where
  inMemory : p.commons.store.disk = none
  settled : (∀ x ∈ staged, x.1.identity = i → x.2.lock? = none) →
    IsSettled (p.commons.store.said key)
  keeps : ∀ x ∈ staged, x.1.identity = i → ∀ lock body, x.2 = .inside lock body →
    body.Keeps (watching i key) leavesSettled (watchOf i key x.1.log p.commons.store)

namespace Watched

variable {c c' : Commons} {staged : List (Member × Stage)}

theorem start {members : List Member} (h : Watched i key ⟨c, members⟩ staged) (j : Identity)
    (setup : Setup) (text : String) (token : Token) :
    Watched i key ⟨c, members ++ [⟨j, [], run setup j text token⟩]⟩
      (staged ++ [(⟨j, [], run setup j text token⟩, .fresh (runLocked setup j text token))]) where
  toStaged := h.toStaged.start setup text token
  inMemory := h.inMemory
  settled hx := h.settled fun x hmem => hx x (List.mem_append_left _ hmem)
  keeps := by
    intro x hx hi lock body hinside
    rcases List.mem_append.1 hx with hx | hx
    · exact h.keeps x hx hi lock body hinside
    · rw [List.mem_singleton.1 hx] at hinside
      cases hinside

theorem elsewhere {members : List Member} (h : Watched i key ⟨c, members⟩ staged)
    {now : Timestamp} {r : StoreRequest}
    (hkey : (Store.answer now r c.store).2.said key = c.store.said key) :
    Watched i key ⟨{ c with store := (Store.answer now r c.store).2 }, members⟩ staged where
  toStaged := ⟨h.members, h.fits, h.orderly⟩
  inMemory := Store.disk_answer h.inMemory now r
  settled hx := by
    show IsSettled ((Store.answer now r c.store).2.said key)
    rw [hkey]
    exact h.settled hx
  keeps := by
    intro x hx hi lock body hinside
    have hwatch : watchOf i key x.1.log (Store.answer now r c.store).2 =
        watchOf i key x.1.log c.store := by rw [watchOf, hkey, watchOf]
    show body.Keeps _ _ (watchOf i key x.1.log (Store.answer now r c.store).2)
    rw [hwatch]
    exact h.keeps x hx hi lock body hinside

theorem mem_middle {α : Type} {x y : α} {front back : List α} :
    x ∈ front ++ y :: back ↔ x = y ∨ x ∈ front ++ back :=
  List.perm_middle.mem_iff.trans List.mem_cons

variable {before after : List Member} {log : Log} {r : Request} {a : r.Answer}
  {next : r.Answer → Program interface (Except Error Outcome)}

/-- What is known stays known when a run of another identity is answered. -/
theorem answer_other {j : Identity}
    (h : Watched i key ⟨c, before ++ ⟨j, log, .ask r next⟩ :: after⟩ staged)
    (ha : c.Answers r a c') (hj : j ≠ i) (hkey : c'.store.said key = c.store.said key) :
    ∃ staged', Watched i key ⟨c', before ++ ⟨j, log ++ [⟨r, a⟩], next a⟩ :: after⟩ staged' := by
  obtain ⟨front, back, s, s', rfl, -, hstaged⟩ := h.toStaged.answer ha
  refine ⟨_, hstaged, disk_of_answers h.inMemory ha, fun hx => ?_,
    fun x hx hi lock body hinside => ?_⟩
  · show IsSettled (c'.store.said key)
    rw [hkey]
    refine h.settled fun x hmem hi => ?_
    rcases mem_middle.1 hmem with rfl | hmem
    · exact absurd hi hj
    · exact hx x (mem_middle.2 (.inr hmem)) hi
  · rcases mem_middle.1 hx with rfl | hmem
    · exact absurd hi hj
    · have hkeeps := h.keeps x (mem_middle.2 (.inr hmem)) hi lock body hinside
      show body.Keeps _ _ (watchOf i key x.1.log c'.store)
      rw [watchOf, hkey]
      exact hkeeps

/-- While a run is inside, the others of its identity are not, so only the run itself is to be
looked at. -/
theorem of_inside {front back : List (Member × Stage)} {p : Pool} {m : Member} {lock : Nat}
    {body : Program interface (Except Error Outcome)} (hm : m.identity = i)
    (h : Staged p (front ++ (m, .inside lock body) :: back)) (hdisk : p.commons.store.disk = none)
    (hbody : body.Keeps (watching i key) leavesSettled (watchOf i key m.log p.commons.store)) :
    Watched i key p (front ++ (m, .inside lock body) :: back) where
  toStaged := h
  inMemory := hdisk
  settled hx := by
    have hnone := hx _ (mem_middle.2 (.inl rfl)) hm
    cases hnone
  keeps := by
    intro x hx hi lock' body' hinside
    rcases mem_middle.1 hx with rfl | hmem
    · cases hinside
      exact hbody
    · have hnone := h.alone rfl hmem (hi.trans hm.symm)
      rw [hinside] at hnone
      cases hnone

/-- A run that is answered outside changes nothing that is known. -/
theorem of_outside {front back : List (Member × Stage)} {p p' : Pool} {m m' : Member} {s s' : Stage}
    (h : Watched i key p (front ++ (m, s) :: back))
    (hstaged : Staged p' (front ++ (m', s') :: back))
    (hstore : p'.commons.store = p.commons.store) (hs : s.lock? = none) (hs' : s'.lock? = none) :
    Watched i key p' (front ++ (m', s') :: back) where
  toStaged := hstaged
  inMemory := by
    rw [hstore]
    exact h.inMemory
  settled hx := by
    rw [hstore]
    refine h.settled fun x hmem hi => ?_
    rcases mem_middle.1 hmem with rfl | hmem
    · exact hs
    · exact hx x (mem_middle.2 (.inr hmem)) hi
  keeps := by
    intro x hx hi lock body hinside
    rw [hstore]
    rcases mem_middle.1 hx with rfl | hmem
    · dsimp only at hinside
      rw [hinside] at hs'
      cases hs'
    · exact h.keeps x (mem_middle.2 (.inr hmem)) hi lock body hinside

/-- **What is known stays known when a run of the identity is answered.** -/
theorem answer_own (h : Watched i key ⟨c, before ++ ⟨i, log, .ask r next⟩ :: after⟩ staged)
    (ha : c.Answers r a c') :
    ∃ staged', Watched i key ⟨c', before ++ ⟨i, log ++ [⟨r, a⟩], next a⟩ :: after⟩ staged' := by
  obtain ⟨front, back, s, s', rfl, hmoves, hstaged⟩ := h.toStaged.answer ha
  have hfits := h.fits _ (mem_middle.2 (.inl rfl))
  refine ⟨front ++ (⟨i, log ++ [⟨r, a⟩], next a⟩, s') :: back, ?_⟩
  cases hmoves with
  | fetch body lock => exact of_outside h hstaged ha.2 rfl rfl
  | drop lock u =>
    have hstore : c'.store = c.store := by rw [show c' = _ from ha]
    exact of_outside h hstaged hstore rfl rfl
  | sweep u =>
    have hstore : c'.store = c.store := by rw [show c' = _ from ha]
    exact of_outside h hstaged hstore rfl rfl
  | take lock body u =>
    dsimp only at hfits
    obtain ⟨⟨setup, text, token, rfl⟩, hlog, -⟩ := hfits
    refine of_inside rfl hstaged (disk_of_answers h.inMemory ha) (runLocked_keeps ?_ ?_)
    · -- The lock was free, so nobody of the identity was inside.
      show IsSettled (c'.store.said key)
      rw [ha.2]
      refine h.settled fun x hmem hi => ?_
      rcases mem_middle.1 hmem with rfl | hmem
      · rfl
      · exact hstaged.alone rfl hmem hi
    · show ¬(i, .ok key) ∈ resolved (log ++ [_])
      rw [resolved_append_of_unread rfl, hlog]
      exact List.not_mem_nil
  | work lock next' a hr =>
    have hkeeps := h.keeps _ (mem_middle.2 (.inl rfl)) rfl lock _ rfl
    exact of_inside rfl hstaged (disk_of_answers h.inMemory ha)
      (hkeeps.2 a _ (moves_of_answers h.inMemory hr ha))
  | free lock result u =>
    have hsettled : IsSettled (c.store.said key) :=
      h.keeps _ (mem_middle.2 (.inl rfl)) rfl lock _ rfl
    have hstore : c'.store = c.store := by rw [show c' = _ from ha]
    refine ⟨hstaged, disk_of_answers h.inMemory ha, fun _ => ?_,
      fun x hx hi lock' body' hinside => ?_⟩
    · show IsSettled (c'.store.said key)
      rw [hstore]
      exact hsettled
    · rcases mem_middle.1 hx with rfl | hmem
      · cases hinside
      · have hnone := h.toStaged.alone rfl hmem hi
        rw [hinside] at hnone
        cases hnone

/-- **Each step keeps what is known**, whoever makes it. -/
theorem step {who : Option Identity} {p p' : Pool} (h : Watched i key p staged)
    (hs : p.Step who p')
    (hkey : who = some i ∨ p'.commons.store.said key = p.commons.store.said key) :
    ∃ staged', Watched i key p' staged' := by
  cases hs with
  | start c members setup j text token => exact ⟨_, h.start j setup text token⟩
  | @answer c c' j r a before after log next ha =>
    by_cases hj : j = i
    · subst hj
      exact h.answer_own ha
    · rcases hkey with hwho | hkey
      · exact absurd (Option.some_inj.1 hwho) hj
      · exact h.answer_other ha hj hkey
  | elsewhere c members now r =>
    rcases hkey with hwho | hkey
    · cases hwho
    · exact ⟨staged, h.elsewhere hkey⟩

end Watched

end Watched

/-! ## A run alone -/

end Parley.Agent
