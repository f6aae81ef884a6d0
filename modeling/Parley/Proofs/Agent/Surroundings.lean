import Parley.Proofs.Agent.Log

/-!
# What the answers of a world change

A world has many parts, and a request is about one of them: an answer leaves all others as they
were (`World.alters_of_answer?`).  What is said of the store and the locks, of the runs in flight
and of the channels is read off from there, so that no request is looked at twice.

What every answer of a world preserves, a course in it preserves (`World.course_induction`).
-/

namespace Parley.Agent

/-! ## What a request is about -/

/-- What a request puts to the store, if it is about sessions. -/
def Request.storeRequest? : Request → Option StoreRequest
  | .store r => some r
  | .tool (.createSession i new) => some (.create i new)
  | .tool (.switchSession i name) => some (.switch i name)
  | .tool (.listSessions i) => some (.list i)
  | .tool (.currentSession i) => some (.current i)
  | .tool (.resetSession i) => some (.reset i)
  | _ => none

/-- A request that leaves the locks alone. -/
def Request.SparesLocks : Request → Prop
  | .fetchLock _ | .takeLock _ | .freeLock _ | .dropLock _ | .sweepLock _ => False
  | _ => True

/-- A request that leaves the table and the cancelled tokens alone. -/
def Request.SparesTable : Request → Prop
  | .track _ | .untrack .. | .sweepTracked _ | .abort _ | .cancel _ => False
  | _ => True

namespace World

variable {w w' : World} {r : Request} {a : r.Answer}

/-! ## What an answer changes -/

/-- Of what runs share, only that changed which a request is about. -/
structure Alters (r : Request) (w w' : World) : Prop where
  store : r.storeRequest? = none → w'.store = w.store
  locks : r.SparesLocks → w'.locks = w.locks
  inFlight : r.SparesTable → w'.inFlight = w.inFlight
  cancelled : r.SparesTable → w'.cancelled = w.cancelled
  channels : w'.channels = w.channels
  isHeard : w'.isHeard = w.isHeard
  seen : (∀ o, r ≠ .deliver o) → w'.seen = w.seen

theorem alters_refl (r : Request) (w : World) : Alters r w w :=
  ⟨fun _ => rfl, fun _ => rfl, fun _ => rfl, fun _ => rfl, rfl, rfl, fun _ => rfl⟩

theorem alters_store (hr : r.storeRequest?.isSome) (w : World) (store : Store) :
    Alters r w { w with store } :=
  ⟨fun h => absurd hr (Option.not_isSome_iff_eq_none.2 h), fun _ => rfl, fun _ => rfl,
    fun _ => rfl, rfl, rfl, fun _ => rfl⟩

theorem alters_locks (hr : ¬ r.SparesLocks) (w : World) (locks : RunLocks) :
    Alters r w { w with locks } :=
  ⟨fun _ => rfl, fun h => absurd h hr, fun _ => rfl, fun _ => rfl, rfl, rfl, fun _ => rfl⟩

theorem alters_table (hr : ¬ r.SparesTable) (w : World) (inFlight : InFlight)
    (cancelled : List Token) : Alters r w { w with inFlight, cancelled } :=
  ⟨fun _ => rfl, fun _ => rfl, fun h => absurd h hr, fun h => absurd h hr, rfl, rfl, fun _ => rfl⟩

/-- What only one run gets to see. -/
theorem alters_beside (r : Request) (w : World) (provider : Model.Provider)
    (attachments : Attachments) (marks : List Nat) :
    Alters r w { w with provider, attachments, marks } :=
  ⟨fun _ => rfl, fun _ => rfl, fun _ => rfl, fun _ => rfl, rfl, rfl, fun _ => rfl⟩

theorem alters_announce (r : Request) (w : World) (e : Gateway.Event) :
    Alters r w (w.announce e).2 := by
  rw [announce]
  split <;> exact ⟨fun _ => rfl, fun _ => rfl, fun _ => rfl, fun _ => rfl, rfl, rfl, fun _ => rfl⟩

theorem alters_deliver (w : World) (o : Outbound) : Alters (.deliver o) w (w.deliver o).2 := by
  rw [deliver]
  split
  case h_1 | h_3 => exact alters_refl _ w
  case h_2 =>
    exact ⟨fun _ => rfl, fun _ => rfl, fun _ => rfl, fun _ => rfl, rfl, rfl,
      fun hr => absurd rfl (hr o)⟩
  case h_4 =>
    have hannounced := alters_announce (.deliver o) w (.ofOutbound o)
    split <;> rename_i heq <;> rw [heq] at hannounced <;> exact hannounced

theorem alters_askStore (hr : r.storeRequest?.isSome) (w : World) (q : StoreRequest) :
    Alters r w (w.askStore q).2 := by
  rw [askStore]
  cases w.store.answer w.clock q with
  | mk answer store => exact alters_store hr w store

theorem alters_answerTool (w : World) (r : Tool.Request) :
    Alters (.tool r) w (w.answerTool r).2 := by
  cases r with
  | createSession i new => exact alters_askStore rfl w (.create i new)
  | switchSession i name => exact alters_askStore rfl w (.switch i name)
  | listSessions i => exact alters_askStore rfl w (.list i)
  | currentSession i => exact alters_askStore rfl w (.current i)
  | resetSession i => exact alters_askStore rfl w (.reset i)
  | save name content =>
    rw [answerTool]
    cases w.attachments.save name content with
    | mk answer attachments => exact alters_beside _ w w.provider attachments w.marks
  | mark label => exact alters_beside _ w w.provider w.attachments (w.marks ++ [label])
  | _ => exact alters_refl _ w

/-- **An answer changes only what the request is about.** -/
theorem alters_of_answer? (h : w.answer? r = some (a, w')) : Alters r w w' := by
  cases r with
  | tool r =>
    have hw : (w.answerTool r).2 = w' := congrArg Prod.snd (Option.some.inj h)
    exact hw ▸ w.alters_answerTool r
  | store r =>
    have hw : (w.askStore r).2 = w' := congrArg Prod.snd (Option.some.inj h)
    exact hw ▸ alters_askStore rfl w r
  | deliver o =>
    have hw : (w.deliver o).2 = w' := congrArg Prod.snd (Option.some.inj h)
    exact hw ▸ w.alters_deliver o
  | announce e =>
    cases h
    exact alters_announce _ w e
  | askModel request =>
    cases h
    exact alters_beside _ w (w.provider.ask request).2 w.attachments w.marks
  | takeLock lock =>
    obtain ⟨locks, -, hw⟩ := Option.map_eq_some_iff.1 h
    cases hw
    exact alters_locks id w locks
  | fetchLock | freeLock | dropLock | sweepLock =>
    cases h
    exact alters_locks id w _
  | track | untrack | sweepTracked =>
    cases h
    exact alters_table id w _ w.cancelled
  | abort | cancel =>
    cases h
    exact alters_table id w _ _
  | wait due token deadline =>
    rw [answer?] at h
    split at h
    · cases h
      exact alters_refl _ w
    · cases h
  | _ =>
    cases h
    exact alters_refl _ w

/-! ## Courses in a world -/

/-- **What every answer preserves, a course preserves.**  It may be about the world, about what was
asked and answered up to then, and about what is left of the program. -/
theorem course_induction {α : Type} {P : World → Log → Program interface α → Prop}
    (hstep : ∀ {w w' : World} {log : Log} {r : Request} {a : r.Answer}
      {next : r.Answer → Program interface α}, w.answer? r = some (a, w') →
      P w log (.ask r next) → P w' (log ++ [⟨r, a⟩]) (next a))
    (n : Nat) {w : World} {log : Log} {p : Program interface α} (h : P w log p) :
    P (w.course n p).1 (log ++ (w.course n p).2.1) (w.course n p).2.2 := by
  induction n generalizing w log p with
  | zero =>
    rw [course, List.append_nil]
    exact h
  | succ n ih =>
    cases p with
    | done a =>
      rw [course, List.append_nil]
      exact h
    | ask r next =>
      rw [course]
      split
      · rw [List.append_nil]
        exact h
      case h_2 a w' ha =>
        have hrest := ih (hstep ha h)
        rw [List.append_assoc] at hrest
        exact hrest

end World

end Parley.Agent
