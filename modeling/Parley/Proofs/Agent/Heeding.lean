import Parley.Proofs.Agent.Account
import Parley.Proofs.Agent.Desk
import Parley.Proofs.Agent.Marked
import Parley.Proofs.Tool.Registry

/-!
# Runs heed their token

From the moment at which its token is cancelled a run only comes to its end.  A run has a request
under way from its start to its end, so the moment is named by the request that is under way; from
its answer on the surroundings say that the token is cancelled whenever they are asked (`Honest`).
After that request the model is not asked again, no handler of a tool that yields is started, and
at most one call and one result are still recorded.  If the moment comes before the run has its
lock, a run that comes to an outcome has recorded its message and the interruption, and nothing
else (`run_heeds`).

## The argument

What surroundings may do about the token is a contract, `heeding`.  Its state says whether the
token is cancelled and, if so, how many calls and results were recorded since.  Every part of a
run keeps the contract from every state in which it can be entered: a round from any, for it first
looks at the token, and a call if nothing was recorded since (`Heed.IsFresh`), for whatever comes
after a call looks at the token before the next.
-/

namespace Parley

open Program

/-- A request that leaves none of some marks. -/
def Tool.Request.Spares (P : Nat → Prop) : Tool.Request → Prop
  | .mark label => ¬P label
  | _ => True

/-- Of some marks, a handler leaves at most one, first thing and only if its tool yields. -/
def Tool.Announces (P : Nat → Prop) (t : Tool) : Prop :=
  ∀ arguments call,
    (t.handler arguments call).AsksOnly (Tool.Request.Spares P) ∨
      t.yields ∧ ∃ label next, t.handler arguments call = .ask (.mark label) next ∧
        (next ()).AsksOnly (Tool.Request.Spares P)

/-- A tool that is reached is in the registry. -/
theorem Registry.mem_of_reach {r : Registry} {t : Tool} {name : String} {arguments : Json}
    (h : r.reach name arguments = .ok t) : t ∈ r.tools := by
  unfold Registry.reach at h
  split at h
  · cases h
  · split at h
    · cases h
    · cases h
      exact (get?_eq_some ‹_›).1

namespace Agent

/-! ## The contract -/

/-- An answer shows that a token is cancelled, if it says anything about that. -/
def Honest (token : Token) (x : interface.Inquiry) : Prop :=
  match x with
  | ⟨.isCancelled t, answer⟩ => t = token → answer = true
  | ⟨.wait _ t _, awake⟩ => t = some token → awake.cancelled = true
  | _ => True

/-- Whether a request records a call. -/
def Request.isCall : Request → Bool
  | .store (.append _ ⟨_, .toolCall .., _⟩) => true
  | _ => false

/-- Whether a request records a result. -/
def Request.isResult : Request → Bool
  | .store (.append _ ⟨_, .toolResult .., _⟩) => true
  | _ => false

/-- Whether a token is cancelled, and how many calls and results were recorded since. -/
inductive Heed where
  | going
  | halted (calls results : Nat)

namespace Heed

/-- How many calls were recorded since the token was cancelled. -/
def calls : Heed → Nat
  | going => 0
  | halted calls _ => calls

/-- How many results were recorded since the token was cancelled. -/
def results : Heed → Nat
  | going => 0
  | halted _ results => results

/-- The state after a request that was under way when the token was cancelled, or later. -/
def halt (s : Heed) (r : Request) : Heed :=
  halted (s.calls + r.isCall.toNat) (s.results + r.isResult.toNat)

/-- A state that another becomes by requests that record neither calls nor results. -/
def Follows (s' s : Heed) : Prop := s' = s ∨ s = going ∧ s' = halted 0 0

variable {s s' s'' : Heed}

theorem follows_refl (s : Heed) : s.Follows s := .inl rfl

theorem Follows.trans (h : s''.Follows s') (h' : s'.Follows s) : s''.Follows s := by
  rcases h with rfl | ⟨rfl, rfl⟩
  · exact h'
  · rcases h' with rfl | ⟨-, h'⟩
    · exact .inr ⟨rfl, rfl⟩
    · cases h'

theorem Follows.calls_eq (h : s'.Follows s) : s'.calls = s.calls := by
  rcases h with rfl | ⟨rfl, rfl⟩ <;> rfl

theorem Follows.results_eq (h : s'.Follows s) : s'.results = s.results := by
  rcases h with rfl | ⟨rfl, rfl⟩ <;> rfl

/-- Nothing was recorded since the token was cancelled. -/
structure IsFresh (s : Heed) : Prop where
  calls : s.calls = 0
  results : s.results = 0

theorem IsFresh.of_follows (hs : s.IsFresh) (h : s'.Follows s) : s'.IsFresh :=
  ⟨h.calls_eq.trans hs.calls, h.results_eq.trans hs.results⟩

end Heed

/-- What a request must not be once the token is cancelled. -/
structure Request.IsIdle (P : Nat → Prop) (r : Request) : Prop where
  model : ∀ request, r ≠ .askModel request
  mark : ∀ label, P label → r ≠ .tool (.mark label)

/-- The token may be cancelled at any time.  After that the model must not be asked, some marks
must not be left, and at most one call and one result may be recorded. -/
def heeding (token : Token) (P : Nat → Prop) : Contract interface Heed where
  allows s r :=
    (s ≠ .going → r.IsIdle P) ∧ (r.isCall = false ∨ s.calls = 0) ∧
      (r.isResult = false ∨ s.results = 0)
  moves s r a s' := s = .going ∧ s' = .going ∨ Honest token ⟨r, a⟩ ∧ s' = s.halt r

variable {token : Token} {P : Nat → Prop} {s s' : Heed} {α β : Type}

/-! ## What the contract says of a course -/

theorem add_countP_cons (count : Nat) (p : interface.Inquiry → Bool) (x : interface.Inquiry)
    (log : Log) : count + (x :: log).countP p = count + (p x).toNat + log.countP p := by
  rw [List.countP_cons, Nat.add_assoc, Nat.add_comm (log.countP p)]
  cases p x <;> rfl

/-- What a run does once its token is cancelled. -/
theorem bounds_of_keeps {p q : Program interface α} {post : Heed → α → Prop} {log : Log}
    (h : p.Keeps (heeding token P) post s) (hlog : Leads p log q)
    (hhonest : ∀ x ∈ log, Honest token x) (hs : s ≠ .going) (hcalls : s.calls ≤ 1)
    (hresults : s.results ≤ 1) :
    (∀ x ∈ log, x.request.IsIdle P) ∧ s.calls + log.countP (·.request.isCall) ≤ 1 ∧
      s.results + log.countP (·.request.isResult) ≤ 1 := by
  induction hlog generalizing s with
  | refl p => exact ⟨List.forall_mem_nil _, hcalls, hresults⟩
  | @step r next log q a _ ih =>
    obtain ⟨⟨hidle, hcall, hresult⟩, hnext⟩ := h
    obtain ⟨hx, hrest⟩ := List.forall_mem_cons.1 hhonest
    have hcalls' : s.calls + r.isCall.toNat ≤ 1 := by
      rcases hcall with hcall | hcall
      · rw [hcall]
        exact hcalls
      · rw [hcall, Nat.zero_add]
        exact Bool.toNat_le _
    have hresults' : s.results + r.isResult.toNat ≤ 1 := by
      rcases hresult with hresult | hresult
      · rw [hresult]
        exact hresults
      · rw [hresult, Nat.zero_add]
        exact Bool.toNat_le _
    obtain ⟨hquiet, hmore, hfurther⟩ :=
      ih (hnext a _ (.inr ⟨hx, rfl⟩)) hrest nofun hcalls' hresults'
    refine ⟨List.forall_mem_cons.2 ⟨hidle hs, hquiet⟩, ?_, ?_⟩
    · rw [add_countP_cons]
      exact hmore
    · rw [add_countP_cons]
      exact hfurther

/-- As long as its token is not cancelled, a run keeps the contract anyway. -/
theorem keeps_of_going {p q : Program interface α} {post : Heed → α → Prop} {log : Log}
    (h : p.Keeps (heeding token P) post .going) (hlog : Leads p log q) :
    q.Keeps (heeding token P) post .going := by
  induction hlog with
  | refl p => exact h
  | step a _ ih => exact ih (h.2 a _ (.inl ⟨rfl, rfl⟩))

/-- **What a run does after the request that was under way when its token was cancelled.** -/
theorem bounds_of_cancelled {p q : Program interface α} {post : Heed → α → Prop}
    {before after : Log} {x : interface.Inquiry} (h : p.Keeps (heeding token P) post .going)
    (hlog : Leads p (before ++ x :: after) q) (hhonest : ∀ y ∈ x :: after, Honest token y) :
    (∀ y ∈ after, y.request.IsIdle P) ∧
      (x :: after).countP (·.request.isCall) ≤ 1 ∧
      (x :: after).countP (·.request.isResult) ≤ 1 := by
  obtain ⟨m, hbefore, hafter⟩ := hlog.split
  have hkeeps := keeps_of_going h hbefore
  obtain ⟨hx, hrest⟩ := List.forall_mem_cons.1 hhonest
  cases hafter with
  | @step r next log q a hafter =>
    have hbounds := bounds_of_keeps (hkeeps.2 a _ (.inr ⟨hx, rfl⟩)) hafter hrest nofun
      (Nat.add_le_add_left (Bool.toNat_le _) 0) (Nat.add_le_add_left (Bool.toNat_le _) 0)
    rw [← Nat.zero_add (List.countP _ _), add_countP_cons, ← Nat.zero_add (List.countP _ (_ :: _)),
      add_countP_cons]
    exact hbounds

/-! ## Requests in the contract -/

/-- A request that the contract allows in every state, and that records neither call nor
result. -/
structure Request.IsQuiet (P : Nat → Prop) (r : Request) : Prop extends r.IsIdle P where
  call : r.isCall = false
  result : r.isResult = false

theorem Request.IsPlain.isQuiet {r : Request} (h : r.IsPlain) : r.IsQuiet P where
  model request heq := by rw [heq] at h; exact h
  mark label _ heq := by rw [heq] at h; exact h
  call := by
    unfold Request.isCall
    split
    · cases h
    · rfl
  result := by
    unfold Request.isResult
    split
    · cases h
    · rfl

theorem Request.Serves.isQuiet {r : Request}
    (h : r.Serves (Tool.Request.Spares P)) : r.IsQuiet P where
  model request heq := by rw [heq] at h; exact h
  mark label hlabel heq := by rw [heq] at h; exact h hlabel
  call := by cases r <;> first | rfl | exact h.elim
  result := by cases r <;> first | rfl | exact h.elim

/-- A quiet request is allowed, and the state after it follows the one before. -/
theorem Request.IsQuiet.allows {r : Request} (h : r.IsQuiet P) (s : Heed) :
    (heeding token P).allows s r :=
  ⟨fun _ => h.toIsIdle, .inl h.call, .inl h.result⟩

theorem follows_of_moves {r : Request} {a : r.Answer} (hcall : r.isCall = false)
    (hresult : r.isResult = false) (h : (heeding token P).moves s r a s') : s'.Follows s := by
  rcases h with ⟨rfl, rfl⟩ | ⟨-, rfl⟩
  · exact .inl rfl
  · rw [Heed.halt, hcall, hresult]
    cases s with
    | going => exact .inr ⟨rfl, rfl⟩
    | halted calls results => exact .inl rfl

/-- A program that only makes quiet requests keeps the contract from every state. -/
theorem keeps_of_isQuiet {p : Program interface α} (h : p.AsksOnly (Request.IsQuiet P)) :
    p.Keeps (heeding token P) (fun s' _ => s'.Follows s) s := by
  suffices hgoal : ∀ s', s'.Follows s → p.Keeps (heeding token P) (fun s' _ => s'.Follows s) s'
    from hgoal s s.follows_refl
  induction p with
  | done a => exact fun s' hs' => hs'
  | ask r next ih =>
    exact fun s' hs' => ⟨h.1.allows s', fun a s'' hmoves =>
      ih a (h.2 a) s'' ((follows_of_moves h.1.call h.1.result hmoves).trans hs')⟩

/-! ## The parts of a run in the contract -/

/-- A part that is entered in a state keeps the contract and, if it comes to a value, leaves a
state with a property. -/
def Heeds (token : Token) (P : Nat → Prop) (Q : Heed → α → Prop) (x : Part α) (s : Heed) : Prop :=
  x.run.Keeps (heeding token P) (fun s' r => ∀ a, r = .ok a → Q s' a) s

variable {Q : Heed → α → Prop} {R : Heed → β → Prop} {m : Mission}

theorem Heeds.bind {x : Part α} {f : α → Part β} (hx : Heeds token P Q x s)
    (hf : ∀ s' a, Q s' a → Heeds token P R (f a) s') : Heeds token P R (x >>= f) s := by
  refine keeps_run_bind (hx.mono fun s' r hr => ?_)
  cases r with
  | ok a => exact hf s' a (hr a rfl)
  | error e => exact nofun

theorem heeds_pure {a : α} (h : Q s a) : Heeds token P Q (pure a) s := by
  rintro _ ⟨⟩
  exact h

theorem Heeds.mono {Q' : Heed → α → Prop} {x : Part α} (h : Heeds token P Q x s)
    (hQ : ∀ s' a, Q s' a → Q' s' a) : Heeds token P Q' x s :=
  Keeps.mono h fun s' _ hr a ha => hQ s' a (hr a ha)

theorem heeds_lift {p : Program interface α}
    (h : p.Keeps (heeding token P) (fun s' a => Q s' a) s) : Heeds token P Q (ExceptT.lift p) s := by
  refine keeps_run_lift (h.mono fun s' a ha => ?_)
  rintro _ ⟨⟩
  exact ha

theorem heeds_of_isQuiet {x : Part α} (h : x.run.AsksOnly (Request.IsQuiet P)) :
    Heeds token P (fun s' _ => s'.Follows s) x s :=
  Keeps.mono (keeps_of_isQuiet h) fun _ _ hs _ _ => hs

theorem heeds_of_isWord {x : Part α} {key : SessionKey}
    (h : x.run.AsksOnly (Request.IsWord key)) : Heeds token P (fun s' _ => s'.Follows s) x s :=
  heeds_of_isQuiet (h.mono fun _ hr => hr.isPlain.isQuiet)

theorem heeds_clock : Heeds token P (fun s' _ => s'.Follows s) (inquire (.tool .clock)) s :=
  heeds_of_isQuiet (inquire_asksOnly (Request.IsPlain.isQuiet trivial))

/-- A look at the token: if it is not cancelled, nothing has happened. -/
theorem heeds_isCancelled : Heeds token P
    (fun s' (cancelled : Bool) => s'.Follows s ∧ (cancelled = false → s' = .going))
    (inquire (.isCancelled token)) s := by
  refine heeds_lift ⟨⟨fun _ => ⟨nofun, nofun⟩, .inl rfl, .inl rfl⟩, fun cancelled s' hmoves => ?_⟩
  refine ⟨follows_of_moves rfl rfl hmoves, fun hgoing => ?_⟩
  rcases hmoves with ⟨-, rfl⟩ | ⟨hhonest, -⟩
  · rfl
  · cases hgoing.symm.trans (hhonest rfl)

/-- Once the token is cancelled, the model is not asked. -/
theorem heeds_consult (token : Token) (deadline : Option Nat) (request : Model.Request) :
    Heeds token P (fun s' _ => s'.Follows s) (ExceptT.lift (consult token deadline request)) s := by
  refine heeds_lift ⟨⟨fun _ => ⟨nofun, nofun⟩, .inl rfl, .inl rfl⟩, fun now s₁ h₁ => ?_⟩
  refine ⟨⟨fun _ => ⟨nofun, nofun⟩, .inl rfl, .inl rfl⟩, fun awake s₂ h₂ => ?_⟩
  have hfollows : s₂.Follows s :=
    (follows_of_moves rfl rfl h₂).trans (follows_of_moves rfl rfl h₁)
  show (if awake.expired then _ else _ : Program interface Asked).Keeps _ _ _
  split
  · exact hfollows
  split
  · exact hfollows
  rename_i hawake
  rcases h₂ with ⟨hgoing, rfl⟩ | ⟨hhonest, -⟩
  · refine ⟨⟨fun hhalted => absurd rfl hhalted, .inl rfl, .inl rfl⟩, fun answer s₃ h₃ => ?_⟩
    have hafter : s₃.Follows s := (follows_of_moves rfl rfl h₃).trans hfollows
    cases answer with
    | error f => exact hafter
    | ok stream =>
      have hlisten := (listen_serves token deadline {} stream).mono fun r hr =>
        Request.Serves.isQuiet (P := P) (hr.mono fun _ => False.elim)
      exact (keeps_of_isQuiet hlisten).mono fun _ _ hs => hs.trans hafter
  · exact absurd (hhonest rfl) hawake

/-- A handler that leaves none of the marks may be run in any state. -/
theorem keeps_watch {p : Program Tool.interface Tool.Result}
    (h : p.AsksOnly (Tool.Request.Spares P)) (yields : Bool) (t : Token) (deadline : Option Nat) :
    (watch yields t deadline p).Keeps (heeding token P) (fun s' _ => s'.Follows s) s :=
  keeps_of_isQuiet ((watch_asksOnly yields t deadline h).mono fun _ hr => hr.isQuiet)

/-- Once the token is cancelled, no handler of a tool that yields is started. -/
theorem keeps_attend {t : Tool} (ht : t.Announces P) (arguments : Json) (call : Tool.Call)
    (token : Token) (deadline : Option Nat) :
    (attend t arguments call token deadline).Keeps (heeding token P) (fun s' _ => s'.Follows s) s := by
  refine ⟨⟨fun _ => ⟨nofun, nofun⟩, .inl rfl, .inl rfl⟩, fun cancelled s₁ h₁ => ?_⟩
  have hfollows : s₁.Follows s := follows_of_moves rfl rfl h₁
  show (if t.yields && cancelled then _ else _ : Program interface Attended).Keeps _ _ _
  split
  · exact hfollows
  rename_i hstarts
  rcases ht arguments call with hspares | ⟨hyields, label, next, hhandler, hspares⟩
  · exact (keeps_watch hspares _ _ _).mono fun _ _ hs => hs.trans hfollows
  · rw [hhandler]
    have hgoing : s₁ = .going := by
      rcases h₁ with ⟨-, hgoing⟩ | ⟨hhonest, -⟩
      · exact hgoing
      · rw [hyields, hhonest rfl] at hstarts
        exact absurd rfl hstarts
    refine ⟨⟨fun hhalted => absurd hgoing hhalted, .inl rfl, .inl rfl⟩, fun u s₂ h₂ => ?_⟩
    exact (keeps_watch hspares _ _ _).mono fun _ _ hs =>
      hs.trans ((follows_of_moves rfl rfl h₂).trans hfollows)

theorem heeds_invoke (htools : ∀ t ∈ m.setup.tools.tools, t.Announces P) (c : Model.ToolCall) :
    Heeds m.token P (fun s' _ => s'.Follows s) (ExceptT.lift (m.invoke c)) s := by
  refine heeds_lift ?_
  unfold Mission.invoke
  split
  · exact s.follows_refl
  · exact keeps_attend (htools _ (Registry.mem_of_reach ‹_›)) _ _ _ _

/-- A call may be recorded if nothing was since the token was cancelled. -/
theorem heeds_record_call (hs : s.IsFresh) (key : SessionKey) (id name : String)
    (arguments : Json) :
    Heeds token P (fun s' _ => s'.results = 0) (record key (.toolCall id name arguments)) s := by
  refine heeds_clock.bind fun s₁ now h₁ => ?_
  have hfresh := hs.of_follows h₁
  refine ⟨⟨fun _ => ⟨nofun, nofun⟩, .inr hfresh.calls, .inl rfl⟩, fun answer s₂ h₂ => ?_⟩
  rintro _ -
  rcases h₂ with ⟨-, rfl⟩ | ⟨-, rfl⟩
  · rfl
  · exact hfresh.results

/-- A result may be recorded if none was since the token was cancelled. -/
theorem heeds_record_result (hs : s.results = 0) (key : SessionKey) (id name output : String)
    (status : ToolStatus) :
    Heeds token P (fun _ _ => True) (record key (.toolResult id name output status)) s := by
  refine heeds_clock.bind fun s₁ now h₁ => ?_
  exact ⟨⟨fun _ => ⟨nofun, nofun⟩, .inl rfl, .inr (h₁.results_eq.trans hs)⟩,
    fun answer s₂ h₂ _ _ => trivial⟩

/-- **A call that does not stop the run leaves the token as it was, not cancelled.** -/
theorem heeds_dispatch (htools : ∀ t ∈ m.setup.tools.tools, t.Announces P) (hs : s.IsFresh)
    (c : Model.ToolCall) :
    Heeds m.token P (fun s' stop => stop = none → s' = .going) (m.dispatch c) s := by
  have hquiet (e : Event) : Request.IsQuiet P (.emit e) := ⟨⟨nofun, nofun⟩, rfl, rfl⟩
  have hpass : Request.IsQuiet P .pass := ⟨⟨nofun, nofun⟩, rfl, rfl⟩
  refine (heeds_of_isQuiet (inquire_asksOnly (hquiet _))).bind fun s₁ _ h₁ => ?_
  refine (heeds_record_call (hs.of_follows h₁) _ _ _ _).bind fun s₂ _ h₂ => ?_
  refine (heeds_invoke htools c).bind fun s₃ attended h₃ => ?_
  refine (heeds_of_isQuiet (inquire_asksOnly hpass)).bind fun s₄ _ h₄ => ?_
  refine (heeds_record_result (h₄.results_eq.trans (h₃.results_eq.trans h₂)) _ _ _ _ _).bind
    fun s₅ _ _ => ?_
  refine (heeds_of_isQuiet (inquire_asksOnly (hquiet _))).bind fun s₆ _ _ => ?_
  split
  · exact heeds_pure nofun
  · refine heeds_isCancelled.bind fun s₇ cancelled h₇ => heeds_pure fun hnone => ?_
    cases cancelled with
    | false => exact h₇.2 rfl
    | true => cases hnone

theorem heeds_dispatchAll (htools : ∀ t ∈ m.setup.tools.tools, t.Announces P) (hs : s.IsFresh)
    (calls : List Model.ToolCall) :
    Heeds m.token P (fun s' stop => stop = none → s'.IsFresh) (m.dispatchAll calls) s := by
  induction calls generalizing s with
  | nil => exact heeds_pure fun _ => hs
  | cons c calls ih =>
    refine (heeds_dispatch htools hs c).bind fun s₁ stop h₁ => ?_
    cases stop with
    | some e => exact heeds_pure nofun
    | none =>
      have hgoing : s₁ = .going := h₁ rfl
      subst hgoing
      exact ih ⟨rfl, rfl⟩

/-- A part that comes to an outcome in any state. -/
theorem heeds_outcome {x : Part Outcome} {key : SessionKey}
    (h : x.run.AsksOnly (Request.IsWord key)) : Heeds token P (fun _ _ => True) x s :=
  (heeds_of_isWord h).mono fun _ _ _ => trivial

/-- A round keeps the contract from every state, for it looks at the token first. -/
theorem heeds_round (htools : ∀ t ∈ m.setup.tools.tools, t.Announces P) {left made : Nat}
    {before : Option String}
    (hproceed : ∀ s' said, Heeds m.token P (fun _ _ => True) (m.proceed left made said) s') :
    Heeds m.token P (fun _ _ => True) (m.rounds left made before) s := by
  rw [Mission.rounds_eq]
  refine heeds_isCancelled.bind fun s₁ cancelled h₁ => ?_
  split
  · exact heeds_outcome (interrupt_isWord _ _)
  rename_i hcancelled
  have hgoing : s₁ = .going := h₁.2 (Bool.eq_false_iff.2 hcancelled)
  subst hgoing
  refine (heeds_of_isWord remembered_isWord).bind fun s₂ session h₂ => ?_
  refine (heeds_consult _ _ _).bind fun s₃ asked h₃ => ?_
  have hfresh : s₃.IsFresh := Heed.IsFresh.of_follows (s := .going) ⟨rfl, rfl⟩ (h₃.trans h₂)
  cases asked with
  | timeout => exact heeds_outcome (interrupt_isWord _ _)
  | cancelled => exact heeds_outcome (interrupt_isWord _ _)
  | failed f => exact heeds_outcome (giveUp_isWord _ _)
  | reply r =>
    show Heeds _ _ _ (if r.isFinal = true then _ else _ : Part Outcome) _
    split
    · exact heeds_outcome (conclude_isWord _ _ _)
    refine (heeds_of_isWord (remark_isWord _ _)).bind fun s₄ said h₄ => ?_
    refine (heeds_dispatchAll htools (hfresh.of_follows h₄) _).bind fun s₅ stop h₅ => ?_
    cases stop with
    | some e => exact heeds_outcome (interrupt_isWord _ _)
    | none => exact hproceed s₅ said

theorem heeds_rounds (htools : ∀ t ∈ m.setup.tools.tools, t.Announces P) (left made : Nat)
    (before : Option String) :
    Heeds m.token P (fun _ _ => True) (m.rounds left made before) s := by
  induction left generalizing made before s with
  | zero => exact heeds_round htools fun _ _ => heeds_outcome (conclude_isWord _ _ _)
  | succ left ih => exact heeds_round htools fun _ _ => ih _ _

theorem heeds_answer (htools : ∀ t ∈ m.setup.tools.tools, t.Announces P) (text : String) :
    Heeds m.token P (fun _ _ => True) (m.answer text) s :=
  (heeds_of_isWord (record_isWord _ fun _ => rfl)).bind fun _ _ _ => heeds_rounds htools _ _ _

theorem keeps_ask {r : Request} {next : r.Answer → Program interface α} (hr : r.IsPlain)
    (h : ∀ a s', (next a).Keeps (heeding token P) (fun _ _ => True) s') :
    Keeps (heeding token P) (fun _ _ => True) (Program.ask (I := interface) r next) s :=
  ⟨(hr.isQuiet (P := P)).allows s, fun a s' _ => h a s'⟩

theorem keeps_runLocked {setup : Setup} (htools : ∀ t ∈ setup.tools.tools, t.Announces P)
    (i : Identity) (text : String) (token : Token) :
    (runLocked setup i text token).Keeps (heeding token P) (fun _ _ => True) s := by
  refine keeps_ask (by trivial) fun resolved _ => ?_
  cases (resolved : Except Error SessionKey) with
  | error e => trivial
  | ok key =>
    refine keeps_ask (by trivial) fun start _ => ?_
    refine keeps_bind (p := (Mission.answer ⟨setup, i, key, token, _⟩ text).run)
      (Keeps.mono (heeds_answer htools text) fun _ result _ => ?_)
    cases result with
    | ok o => exact keeps_ask (by trivial) fun _ _ => trivial
    | error e => exact keeps_ask (by trivial) fun _ _ => keeps_ask (by trivial) fun _ _ => trivial

/-- **A run keeps the contract**, whatever its tools do. -/
theorem keeps_run {setup : Setup} (htools : ∀ t ∈ setup.tools.tools, t.Announces P) (i : Identity)
    (text : String) (token : Token) :
    (run setup i text token).Keeps (heeding token P) (fun _ _ => True) s := by
  refine keeps_ask (by trivial) fun lock _ => keeps_ask (by trivial) fun _ _ => ?_
  refine keeps_bind (p := runLocked setup i text token)
    ((keeps_runLocked htools i text token).mono fun _ result _ => ?_)
  exact keeps_ask (by trivial) fun _ _ => keeps_ask (by trivial) fun _ _ =>
    keeps_ask (by trivial) fun _ _ => trivial

/-! ## Starts of handlers -/

theorem announces_nothing (t : Tool) : t.Announces fun _ => False := by
  refine fun arguments call => .inl ((asksOnly_true _).mono fun r _ => ?_)
  cases r <;> first | exact id | trivial

theorem spares_shifted {γ : Type} (p : Program Tool.interface γ) :
    (p.through Tool.askShifted).AsksOnly (Tool.Request.Spares (· = 0)) := by
  induction p with
  | done a => trivial
  | ask r next ih =>
    refine asksOnly_bind ?_ ih
    cases r with
    | mark label => exact ⟨Nat.succ_ne_zero label, fun _ => trivial⟩
    | _ => exact ⟨trivial, fun _ => trivial⟩

/-- The handlers of marked tools leave the first mark first thing, and not again. -/
theorem announces_marked (t : Tool) : t.marked.Announces (· = 0) := by
  intro arguments call
  cases hyields : t.yields with
  | false =>
    refine .inl ?_
    rw [Tool.marked, hyields]
    exact spares_shifted _
  | true =>
    refine .inr ⟨hyields, 0, fun _ => (t.handler arguments call).through Tool.askShifted, ?_,
      spares_shifted _⟩
    rw [Tool.marked, hyields]
    rfl

/-- An inquiry that is honest without marks is honest. -/
theorem honest_of_unmarked {x : interface.Inquiry} (h : ∀ y ∈ unmarked? x, Honest token y) :
    Honest token x := by
  obtain ⟨r, a⟩ := x
  cases r with
  | tool r => trivial
  | _ => exact h _ rfl

/-- **Once the token is cancelled, no handler of a tool that yields starts.** -/
theorem not_startsIn {setup : Setup} {i : Identity} {text : String} {before after : Log}
    {x : interface.Inquiry} (hhonest : ∀ y ∈ x :: after, Honest token y) :
    ¬ StartsIn setup i text token (before ++ [x]) after := by
  rintro ⟨log, log', q, hlog, hbefore, hafter, y, hy, hmark⟩
  obtain ⟨first, rest, rfl, -, hrest⟩ := List.filterMap_eq_append_iff.1 hbefore
  obtain ⟨hidden, z, last, rfl, -, hz, hlast⟩ := List.filterMap_eq_cons_iff.1 hrest
  rw [← List.append_assoc, List.append_assoc] at hlog
  have hcourse : ∀ y ∈ z :: (last ++ log'), Honest token y := by
    refine fun y hy => honest_of_unmarked fun y' hy' => ?_
    rcases List.mem_cons.1 hy with rfl | hy
    · cases hz.symm.trans hy'
      exact hhonest _ List.mem_cons_self
    · refine hhonest y' (List.mem_cons_of_mem _ ?_)
      rw [← hafter, ← List.nil_append (log'.filterMap _), ← hlast, ← List.filterMap_append]
      exact List.mem_filterMap.2 ⟨y, hy, hy'⟩
  have htools : ∀ t ∈ setup.marked.tools.tools, t.Announces (· = 0) := by
    intro t ht
    obtain ⟨t, -, rfl⟩ := List.mem_map.1 ht
    exact announces_marked t
  exact ((bounds_of_cancelled (keeps_run htools i text token) hlog hcourse).1 y
    (List.mem_append_right _ hy)).mark 0 rfl hmark

/-! ## Runs that are cancelled before they start -/

/-- A run whose token is cancelled when it has its lock records its message and the
interruption. -/
theorem answer_cancelled {text : String} {log : Log} {o : Outcome}
    (h : Leads (m.answer text).run log (.done (.ok o)))
    (hhonest : ∀ x ∈ log, Honest m.token x) :
    o = m.outcome .cancelled 0 ∧ Tells m.session log
      [(.user, .text text), (.assistant, .text "[turn interrupted: cancelled]")] [] := by
  obtain ⟨first, rest, _, rfl, hmessage, hrounds⟩ := leads_run_bind h
  rw [Mission.rounds_eq] at hrounds
  obtain ⟨look, last, cancelled, rfl, hlook, hlast⟩ := leads_run_bind hrounds
  have hinquiry := leads_request (leads_run_lift hlook)
  subst hinquiry
  have hcancelled : (cancelled : Bool) = true :=
    hhonest _ (List.mem_append_right _ List.mem_cons_self) rfl
  rw [hcancelled] at hlast
  obtain ⟨rfl, hnote⟩ := interrupt_tells hlast
  have hsaid := record_tells hmessage (fun _ => rfl) fun _ => rfl
  exact ⟨rfl, hsaid.append ((inquire_tells _ (r := .isCancelled _) trivial hlook).append hnote)⟩

/-- A run whose token is cancelled before it has its lock. -/
theorem run_cancelled {setup : Setup} {i : Identity} {text : String} {before after : Log}
    {x : interface.Inquiry} {o : Outcome}
    (h : Leads (run setup i text token) (before ++ x :: after) (.done (.ok o)))
    (hlock : ∀ y ∈ before, ∀ lock, y.request ≠ .takeLock lock)
    (hhonest : ∀ y ∈ x :: after, Honest token y) :
    o.ending = .cancelled ∧ o.iterations = 0 ∧
      added (before ++ x :: after) =
        [(o.session, .user, .text text),
          (o.session, .assistant, .text "[turn interrupted: cancelled]")] := by
  obtain ⟨lock, inner, taken, freed, dropped, swept, hlog, hinner⟩ := leads_run h
  obtain ⟨key, start, middle, u, rfl, hanswer⟩ := leads_runLocked hinner
  have hrest : ∀ y ∈ middle, Honest token y := by
    intro y hy
    have hinside : y ∈ (⟨.store (.resolve i), (.ok key : Except Error SessionKey)⟩ ::
        ⟨.time, start⟩ :: (middle ++ [⟨.emit (.ended o.ending), u⟩]) : Log) :=
      List.mem_cons_of_mem _ (List.mem_cons_of_mem _ (List.mem_append_left _ hy))
    -- the request that was under way is that for the lock, or the one before
    rcases before with _ | ⟨b, _ | ⟨b', before⟩⟩
    · cases hlog
      exact hhonest y (List.mem_cons_of_mem _ (List.mem_cons_of_mem _
        (List.mem_append_left _ hinside)))
    · cases hlog
      exact hhonest y (List.mem_cons_of_mem _ (List.mem_append_left _ hinside))
    · have htaken : b' = ⟨.takeLock lock, taken⟩ :=
        (List.cons.inj (List.cons.inj hlog).2).1
      rw [htaken] at hlock
      exact absurd rfl (hlock _ (List.mem_cons_of_mem _ List.mem_cons_self) lock)
  obtain ⟨rfl, hsaid⟩ := answer_cancelled hanswer hrest
  have hend : Tells key [⟨.emit (.ended .cancelled), u⟩, ⟨.freeLock lock, freed⟩,
      ⟨.dropLock lock, dropped⟩, ⟨.sweepLock i, swept⟩] [] [] := ⟨rfl, rfl, rfl⟩
  have hall := (hsaid.append hend).added
  refine ⟨rfl, rfl, ?_⟩
  rw [hlog, ← List.cons_append, ← List.cons_append]
  show added ((middle ++ [_]) ++ _) = _
  rw [List.append_assoc]
  exact hall

/-! ## Worlds in which a token is cancelled -/

/-- What is cancelled stays so. -/
theorem Ledger.Answers.mem_cancelled {l l' : Ledger} {r : Request} {a : r.Answer}
    (h : l.Answers r a l') (ht : token ∈ l.cancelled) : token ∈ l'.cancelled := by
  cases r with
  | track i =>
    rw [h.2]
    exact ht
  | abort i =>
    rw [h.2]
    exact List.mem_append_right _ ht
  | cancel t =>
    rw [show l' = _ from h]
    exact List.mem_cons_of_mem t ht
  | _ =>
    rw [show l' = _ from h]
    exact ht

/-- **A world in which a token is cancelled is honest about it**, and stays so. -/
theorem honest_of_answer? {w w' : World} {r : Request} {a : r.Answer} (ht : token ∈ w.cancelled)
    (h : w.answer? r = some (a, w')) : Honest token ⟨r, a⟩ ∧ token ∈ w'.cancelled := by
  refine ⟨?_, (Desk.answers_of_world h).mem_cancelled ht⟩
  cases r with
  | isCancelled t =>
    rintro rfl
    cases h
    exact List.contains_iff_mem.2 ht
  | wait due t deadline =>
    rintro rfl
    rw [World.answer?] at h
    split at h
    · cases h
      exact List.contains_iff_mem.2 ht
    · cases h
  | _ => trivial

theorem honest_of_course (n : Nat) {w : World} (p : Program interface α)
    (ht : token ∈ w.cancelled) : ∀ x ∈ (w.course n p).2.1, Honest token x := by
  refine (World.course_induction (P := fun w log _ => token ∈ w.cancelled ∧
    ∀ x ∈ log, Honest token x) (fun ha h => ?_) n ⟨ht, List.forall_mem_nil _⟩).2
  obtain ⟨hx, hcancelled⟩ := honest_of_answer? h.1 ha
  exact ⟨hcancelled, List.forall_mem_append.2 ⟨h.2, List.forall_mem_singleton.2 hx⟩⟩

/-! ## The whole run -/

/-- **A run heeds its token.**  The token may be cancelled at any time, the lock included, while
some request is under way; the surroundings say so from the answer to that request on.  After it
the model is not asked and no handler of a tool that yields starts, and with it at most one call
and one result are recorded.  If the run did not have its lock before and comes to an outcome, it
was cancelled in no round, and has recorded its message and the interruption and nothing else. -/
theorem run_heeds {setup : Setup} {i : Identity} {text : String} {before after : Log}
    {x : interface.Inquiry} {q : Program interface (Except Error Outcome)}
    (h : Leads (run setup i text token) (before ++ x :: after) q)
    (hhonest : ∀ y ∈ x :: after, Honest token y) :
    (∀ y ∈ after, ∀ request, y.request ≠ .askModel request) ∧
    ¬ StartsIn setup i text token (before ++ [x]) after ∧
    (x :: after).countP (·.request.isCall) ≤ 1 ∧
    (x :: after).countP (·.request.isResult) ≤ 1 ∧
    ((∀ y ∈ before, ∀ lock, y.request ≠ .takeLock lock) → ∀ o, q = .done (.ok o) →
      o.ending = .cancelled ∧ o.iterations = 0 ∧
      added (before ++ x :: after) =
        [(o.session, .user, .text text),
          (o.session, .assistant, .text "[turn interrupted: cancelled]")]) := by
  obtain ⟨hidle, hcalls, hresults⟩ := bounds_of_cancelled
    (keeps_run (fun t _ => announces_nothing t) i text token) h hhonest
  refine ⟨fun y hy => (hidle y hy).model, not_startsIn hhonest, hcalls, hresults, ?_⟩
  rintro hlock o rfl
  exact run_cancelled h hlock hhonest

/-- **A run whose token is cancelled while it waits for its lock** records its message and the
interruption. -/
theorem run_heeds_queued :
    let p := run {} ⟨"cli", "local"⟩ "hello" 0
    let queued := (World.rehearsal [.text "never said"]).course 1 p
    let w : World := { queued.1 with cancelled := [0] }
    let log := (w.course 50 queued.2.2).2.1
    let o : Outcome := { session := ⟨"cli:local"⟩, ending := .cancelled, iterations := 0 }
    ∃ (x : interface.Inquiry) (after : Log), log = x :: after ∧
      Leads p (queued.2.1 ++ x :: after) (.done (.ok o)) ∧ (∀ y ∈ x :: after, Honest 0 y) ∧
      (∀ y ∈ queued.2.1, ∀ lock, y.request ≠ .takeLock lock) ∧
      added (queued.2.1 ++ x :: after) =
        [(o.session, .user, .text "hello"),
          (o.session, .assistant, .text "[turn interrupted: cancelled]")] := by
  intro p queued w log o
  have hlog : Leads queued.2.2 log (.done (.ok o)) := leads_of_value (by decide +kernel)
  have hhonest : ∀ y ∈ log, Honest 0 y := honest_of_course 50 _ List.mem_cons_self
  have hlock : ∀ y ∈ queued.2.1, ∀ lock, y.request ≠ .takeLock lock := by
    rw [show queued.2.1 = [⟨.fetchLock ⟨"cli", "local"⟩, (0 : Nat)⟩] from rfl]
    exact List.forall_mem_singleton.2 nofun
  obtain ⟨x, after, hshape⟩ :=
    List.exists_cons_of_ne_nil (List.ne_nil_of_length_pos (by decide +kernel : 0 < log.length))
  rw [hshape] at hlog hhonest
  have hcourse : Leads p (queued.2.1 ++ x :: after) (.done (.ok o)) :=
    (leads_course 1 _ p).trans hlog
  obtain ⟨-, -, -, -, hcancelled⟩ := run_heeds hcourse hhonest
  exact ⟨x, after, hshape, hcourse, hhonest, hlock, (hcancelled hlock o rfl).2.2⟩

end Agent

end Parley
