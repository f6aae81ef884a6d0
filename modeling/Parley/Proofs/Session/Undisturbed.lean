import Parley.Proofs.Session.Callers
import Parley.Proofs.Session.Overrides

/-!
# Calls that nobody disturbs

A call whose steps are all taken at one instant, with no other caller's in between, does what the
store does at once: it returns the store's answer, and what is shared shows the store after it
(`leads_of_shows`).  So the steps are those of the operations, cut into pieces.
-/

namespace Parley.Slots

/-- The steps of one caller at one instant. -/
inductive Leads (now : Timestamp) : Shared → Stage → Shared → Stage → Prop where
  | refl (sh : Shared) (s : Stage) : Leads now sh s sh s
  | step {sh sh' sh'' : Shared} {s s' s'' : Stage} {o : Option Deed}
    (h : s.step now sh = some (o, sh', s')) (rest : Leads now sh' s' sh'' s'') :
    Leads now sh s sh'' s''

/-- What is shared shows a store that is kept in a directory, and nobody has a lock. -/
structure Shows (sh : Shared) (s : Store) : Prop where
  sessions : ∀ key, s.sessions.get? key = (sh.index.get? key).bind (sh.slots[·]?)
  overrides : s.overrides = sh.overrides
  disk : s.disk = some sh.disk
  indexed : sh.Indexed
  free : sh.held = []

variable {now : Timestamp} {sh sh' sh'' : Shared} {s s' s'' : Stage} {t : Store} {key : SessionKey}
  {n : Nat} {x y : Session} {d : Directory} {w : Wish} {o : Option Deed} {l : Lock}

theorem Leads.trans (h : Leads now sh s sh' s') (h' : Leads now sh' s' sh'' s'') :
    Leads now sh s sh'' s'' := by
  induction h with
  | refl => exact h'
  | step hstep _ ih => exact .step hstep (ih h')

theorem Leads.of_step (h : s.step now sh = some (o, sh', s')) : Leads now sh s sh' s' :=
  .step h (.refl _ _)

/-- A lock that nobody has is taken. -/
theorem leads_take (hfree : sh.held = []) (l : Lock) (s : Stage) :
    Leads now sh (.take l s) { sh with held := [l] } s := by
  refine .of_step (o := none) ?_
  rw [Stage.step, hfree, if_neg List.not_mem_nil]

/-- The only lock is freed. -/
theorem leads_free (hfree : sh.held = []) (l : Lock) (s : Stage) :
    Leads now { sh with held := [l] } (.free l s) sh s := by
  refine .of_step (o := none) ?_
  rw [Stage.step, List.erase_cons_head, ← hfree]

/-- **One step under a lock**, which is taken before and freed after. -/
theorem leads_section (hfree : sh.held = []) (hfree' : sh'.held = [])
    (h : s.step now { sh with held := [l] } =
      some (o, { sh' with held := [l] }, .free l s')) : Leads now sh (.take l s) sh' s' :=
  ((leads_take hfree l s).trans (.of_step h)).trans (leads_free hfree' l s')

namespace Shows

/-- A key that is in use stands for its session. -/
theorem get?_of_index (h : Shows sh t) (hn : sh.index.get? key = some n) :
    ∃ x, sh.slots[n]? = some x ∧ x.key = key ∧ t.sessions.get? key = some x := by
  obtain ⟨x, hx, hkey⟩ := h.indexed key n hn
  exact ⟨x, hx, hkey, by rw [h.sessions, hn, Option.bind_some, hx]⟩

theorem get?_eq_none_iff (h : Shows sh t) :
    t.sessions.get? key = none ↔ sh.index.get? key = none := by
  cases hn : sh.index.get? key with
  | none => exact iff_of_true (by rw [h.sessions, hn, Option.bind_none]) rfl
  | some n =>
    obtain ⟨x, -, -, hx⟩ := h.get?_of_index hn
    rw [hx]
    exact iff_of_false nofun nofun

theorem contains_eq (h : Shows sh t) (key : SessionKey) :
    t.sessions.contains key = sh.index.contains key := by
  rw [Table.contains, Table.contains, Bool.eq_iff_iff, Option.isSome_iff_ne_none,
    Option.isSome_iff_ne_none, not_iff_not]
  exact h.get?_eq_none_iff

/-- The directory changed. -/
theorem withDisk (h : Shows sh t) (d : Directory) :
    Shows { sh with disk := d } { t with disk := some d } :=
  ⟨h.sessions, h.overrides, rfl, h.indexed, h.free⟩

/-- A session was put into a slot of its own. -/
theorem place (h : Shows sh t) (x : Session) :
    Shows (sh.place x) { t with sessions := t.sessions.set x.key x } where
  sessions key := by
    dsimp only [Shared.place]
    rw [Table.get?_set, Table.get?_set]
    split
    case isTrue => exact List.getElem?_concat_length.symm
    case isFalse =>
      cases hn : sh.index.get? key with
      | none => exact h.get?_eq_none_iff.2 hn
      | some n =>
        obtain ⟨y, hy, -, hget⟩ := h.get?_of_index hn
        obtain ⟨hlt, -⟩ := List.getElem?_eq_some_iff.1 hy
        rw [hget, Option.bind_some, List.getElem?_append_left hlt, hy]
  overrides := h.overrides
  disk := h.disk
  indexed := h.indexed.place x
  free := h.free

/-- The session in a slot changed. -/
theorem work (h : Shows sh t) (hn : sh.index.get? key = some n) (hx : sh.slots[n]? = some x)
    (hxy : Continues x y) (d : Directory) :
    Shows { sh with slots := sh.slots.set n y, disk := d }
      { t with sessions := t.sessions.set key y, disk := some d } where
  sessions other := by
    dsimp only
    obtain ⟨hlt, -⟩ := List.getElem?_eq_some_iff.1 hx
    rw [Table.get?_set]
    split
    case isTrue hother => rw [hother, hn, Option.bind_some, List.getElem?_set_self hlt]
    case isFalse hother =>
      rw [h.sessions]
      cases hm : sh.index.get? other with
      | none => rfl
      | some m =>
        rw [Option.bind_some, Option.bind_some, List.getElem?_set_ne]
        rintro rfl
        -- a slot is that of one key only
        obtain ⟨z, hz, hkey, -⟩ := h.get?_of_index hm
        obtain ⟨z', hz', hkey', -⟩ := h.get?_of_index hn
        rw [hz] at hz'
        cases hz'
        exact hother (hkey.symm.trans hkey')
  overrides := h.overrides
  disk := rfl
  indexed := h.indexed.work hx hxy d
  free := h.free

end Shows

/-- Sessions that are put into slots one after the other. -/
theorem shows_foldl_place (h : Shows sh t) (sessions : List Session) :
    Shows (sessions.foldl Shared.place sh)
      { t with sessions := sessions.foldl (fun table x => table.set x.key x) t.sessions } := by
  induction sessions generalizing sh t with
  | nil => exact h
  | cons x sessions ih => exact ih (h.place x)

/-- **A store that was opened is shown.** -/
theorem shows_opened {d₀ : Directory} (hopen : Store.openAt d₀ = (.ok t, d)) :
    Shows (.opened d₀.sessions t.overrides d) t := by
  obtain ⟨rfl, -⟩ := Store.openAt_ok hopen
  have hempty : Shows { overrides := Store.sound (Store.loadSessions d₀) d₀.overrides, disk := d }
      ⟨.empty, Store.sound (Store.loadSessions d₀) d₀.overrides, some d⟩ := by
    refine ⟨fun key => rfl, rfl, rfl, fun key n hn => ?_, rfl⟩
    simp at hn
  exact shows_foldl_place hempty d₀.sessions

/-! ## Creating -/

/-- **Summing a session up** takes two locks, one after the other. -/
theorem leads_glance (now : Timestamp) (hfree : sh.held = []) (hx : sh.slots[n]? = some x) :
    Leads now sh (.take (.slot n) (.glance w n)) sh (.returned (.summary (.ok
      (x.summary (decide (sh.overrides.get? w.identity = some x.key)))))) := by
  refine .trans (leads_section (o := none) hfree hfree ?_)
    (leads_section (s := .compare w (x.summary false)) (o := none) hfree hfree rfl)
  simp only [Stage.step, Stage.look, hx]
  rfl

/-- A key that is in use is met. -/
theorem leads_met (now : Timestamp) (hfree : sh.held = []) (hn : sh.index.get? w.key = some n) :
    Leads now sh (.draft w) sh (w.met n) := by
  refine .step (o := none) rfl (leads_section (o := some (.met w.key)) hfree hfree ?_)
  simp only [Stage.step, Stage.look, hn]
  rfl

/-- **A session under a key that is not in use is made**, if the directory takes it. -/
theorem leads_made (now : Timestamp) (h : Shows sh t) (hn : sh.index.get? w.key = none) :
    match t.insertVacant (w.session now) with
    | (.ok made, t') => made = true ∧ ∃ sh', Leads now sh (.draft w) sh' (w.made sh.slots.length) ∧
        Shows sh' t' ∧ sh'.slots = sh.slots ++ [w.session now] ∧ sh'.overrides = sh.overrides ∧
        t'.sessions.get? w.key = some (w.session now)
    | (.error e, t') => ∃ e' sh', e = .file e' ∧
        Leads now sh (.draft w) sh' (.returned (w.refused e')) ∧ Shows sh' t' := by
  have hvacant : t.sessions.contains (w.session now).key = false := by
    rw [h.contains_eq, Table.contains]
    show (sh.index.get? w.key).isSome = false
    rw [hn]
    rfl
  have hcheck : Leads now sh (.draft w) { sh with held := [.creating] }
      (.write w (w.session now)) := by
    refine .step (o := none) rfl ((leads_take h.free .creating _).trans (.of_step (o := none) ?_))
    simp only [Stage.step, Stage.look, hn]
    rfl
  unfold Store.insertVacant
  rw [hvacant, if_neg Bool.false_ne_true, h.disk]
  dsimp only
  cases hwrite : sh.disk.writeSession (w.session now) with
  | mk result d =>
    cases result with
    | ok u =>
      obtain ⟨placed, hplaced⟩ : ∃ placed : Shared, placed = { sh with
        slots := sh.slots ++ [w.session now]
        index := sh.index.set w.key sh.slots.length
        disk := d } := ⟨_, rfl⟩
      have hwritten : Stage.step now { sh with held := [.creating] } (.write w (w.session now)) =
          some (none, { sh with held := [.creating], disk := d }, .place w (w.session now)) := by
        simp only [Stage.step, hwrite]
      have hsteps : Leads now sh (.draft w) { placed with held := [.creating] }
          (.free .creating (w.made sh.slots.length)) := by
        rw [hplaced]
        exact hcheck.trans (.step hwritten (.of_step (o := some (.made (w.session now))) rfl))
      have hshows := (h.withDisk d).place (w.session now)
      refine ⟨rfl, placed, hsteps.trans (leads_free (hplaced ▸ h.free) _ _), hplaced ▸ hshows,
        hplaced ▸ rfl, hplaced ▸ rfl, Table.get?_set_self ..⟩
    | error e =>
      have hrefused : Stage.step now { sh with held := [.creating] } (.write w (w.session now)) =
          some (some (.refused e), { sh with held := [.creating], disk := d },
            .free .creating (.returned (w.refused e))) := by
        simp only [Stage.step, hwrite]
      exact ⟨e, { sh with disk := d }, rfl, (hcheck.trans (.of_step hrefused)).trans
        (leads_free (h.withDisk d).free _ _), h.withDisk d⟩

/-- A wish whose key is not in use is granted as the store has it, and presented. -/
theorem leads_createAt (now : Timestamp) (h : Shows sh t) (hn : sh.index.get? w.key = none)
    (hpurpose : w.purpose ≠ .default) (allowExisting : Bool) :
    ∃ sh', Leads now sh (.draft w) sh' (.returned (.summary
        (t.createAt w.identity w.key w.title allowExisting now).1)) ∧
      Shows sh' (t.createAt w.identity w.key w.title allowExisting now).2 := by
  have hmade := leads_made now h hn
  have hsession : (.new w.key w.identity w.title now : Session) = w.session now := rfl
  rw [Store.createAt, hsession]
  cases hinsert : t.insertVacant (w.session now) with
  | mk result t' =>
    rw [hinsert] at hmade
    cases result with
    | ok made =>
      obtain ⟨rfl, sh', hsteps, hshows, hslots, hoverrides, hget⟩ := hmade
      have hslot : sh'.slots[sh.slots.length]? = some (w.session now) := by
        rw [hslots, List.getElem?_concat_length]
      have hplaced : w.made sh.slots.length =
          .take (.slot sh.slots.length) (.glance w sh.slots.length) := by
        unfold Wish.made
        split
        · contradiction
        · rfl
      rw [hplaced] at hsteps
      refine ⟨sh', hsteps.trans ?_, hshows⟩
      have hglance := leads_glance now (w := w) hshows.free hslot
      simp only [Store.summaryOf, hget, hshows.overrides]
      exact hglance
    | error e =>
      obtain ⟨e', sh', rfl, hsteps, hshows⟩ := hmade
      have hrefused : w.refused e' = .summary (.error (.file e')) := by
        unfold Wish.refused
        split
        · contradiction
        · rfl
      rw [hrefused] at hsteps
      exact ⟨sh', hsteps, hshows⟩

/-- **Creating a session under a key that was asked for.** -/
theorem leads_named (now : Timestamp) (h : Shows sh t) (i : Identity) (title : Option String)
    (key : SessionKey) (allowExisting : Bool) :
    ∃ sh', Leads now sh (.draft ⟨i, title, .named key allowExisting⟩) sh'
        (.returned (.summary (t.createAt i key title allowExisting now).1)) ∧
      Shows sh' (t.createAt i key title allowExisting now).2 := by
  cases hn : sh.index.get? key with
  | none =>
    exact leads_createAt now (w := ⟨i, title, .named key allowExisting⟩) h hn nofun allowExisting
  | some n =>
    obtain ⟨x, hx, -, hget⟩ := h.get?_of_index hn
    have hused : t.sessions.contains (Session.new key i title now).key := by
      show (t.sessions.get? key).isSome
      rw [hget]
      rfl
    have hmet := leads_met now (w := ⟨i, title, .named key allowExisting⟩) h.free hn
    have hinsert : t.insertVacant (.new key i title now) = (.ok false, t) := by
      rw [Store.insertVacant, if_pos hused]
    rw [Store.createAt, hinsert]
    cases allowExisting with
    | true =>
      refine ⟨sh, hmet.trans ?_, h⟩
      have hglance := leads_glance now (w := ⟨i, title, .named key true⟩) h.free hx
      simp only [Store.summaryOf, hget, h.overrides]
      exact hglance
    | false => exact ⟨sh, hmet, h⟩

/-- Generated keys that are in use are passed over. -/
theorem leads_generated (now : Timestamp) (hfree : sh.held = []) (i : Identity)
    (title : Option String) (base : String) (m tries : Nat)
    (hused : ∀ j, m ≤ j → j < m + tries → sh.index.contains (Store.numbered base j)) :
    Leads now sh (.draft ⟨i, title, .generated base m⟩) sh
      (.draft ⟨i, title, .generated base (m + tries)⟩) := by
  induction tries generalizing m with
  | zero => exact .refl _ _
  | succ tries ih =>
    obtain ⟨n, hn⟩ := Option.isSome_iff_exists.1 (hused m (Nat.le_refl m) (by omega))
    have hmet := leads_met now (w := ⟨i, title, .generated base m⟩) hfree hn
    have hrest := ih (m + 1) fun j hmj hj => hused j (by omega) (by omega)
    rw [show m + 1 + tries = m + (tries + 1) by omega] at hrest
    exact hmet.trans hrest

/-- **Creating a session under a key that is generated.** -/
theorem leads_vacant (now : Timestamp) (h : Shows sh t) (i : Identity) (title : Option String) :
    ∃ sh', Leads now sh (.draft ⟨i, title, .generated (Store.generatedBase i now) 1⟩) sh'
        (.returned (.summary (t.createAt i (t.vacantKey i now) title false now).1)) ∧
      Shows sh' (t.createAt i (t.vacantKey i now) title false now).2 := by
  obtain ⟨hle, hpassed, -⟩ := t.vacantNumber_spec (Store.generatedBase i now) 1 t.size
  obtain ⟨tries, htries⟩ := Nat.exists_eq_add_of_le hle
  have hkey : t.vacantKey i now = Store.numbered (Store.generatedBase i now) (1 + tries) := by
    rw [← htries]
    rfl
  have hvacant : sh.index.get? (t.vacantKey i now) = none := by
    have hnot := Store.not_contains_vacantKey t i now
    rw [h.contains_eq, Table.contains] at hnot
    exact Option.not_isSome_iff_eq_none.1 hnot
  have hsearch := leads_generated now h.free i title (Store.generatedBase i now) 1 tries
    fun j hj hlt => by
      rw [← h.contains_eq]
      exact hpassed j hj (by omega)
  rw [hkey] at hvacant ⊢
  obtain ⟨sh', hsteps, hshows⟩ := leads_createAt now
    (w := ⟨i, title, .generated (Store.generatedBase i now) (1 + tries)⟩) h hvacant (by simp) false
  exact ⟨sh', hsearch.trans hsteps, hshows⟩

/-- **Creating a session**, under whatever key. -/
theorem leads_create (h : Shows sh t) (i : Identity) (new : NewSession) :
    ∃ sh', Leads now sh (.start (.create i new)) sh'
        (.returned (.summary (t.create i new now).1)) ∧ Shows sh' (t.create i new now).2 := by
  unfold Store.create
  cases hname : (new.key.map String.trimBlank).bind String.nonempty? with
  | none =>
    have hof : Wish.of i new now =
        .ok ⟨i, new.titleOf?, .generated (Store.generatedBase i now) 1⟩ := by
      rw [Wish.of, hname]
    have hstart : Stage.step now sh (.start (.create i new)) = some (none, sh,
        .draft ⟨i, new.titleOf?, .generated (Store.generatedBase i now) 1⟩) := by
      simp only [Stage.step, Stage.look, hof, Option.map_some]
    obtain ⟨sh', hsteps, hshows⟩ := leads_vacant now h i new.titleOf?
    exact ⟨sh', .step hstart hsteps, hshows⟩
  | some name =>
    cases hkey : Store.requestedKey i name with
    | error e =>
      have hof : Wish.of i new now = .error e := by
        rw [Wish.of, hname]
        dsimp only
        rw [hkey]
        rfl
      refine ⟨sh, .of_step (o := none) ?_, by simpa only [hkey] using h⟩
      simp only [Stage.step, Stage.look, hof, hkey, Option.map_some]
    | ok key =>
      have hof : Wish.of i new now = .ok ⟨i, new.titleOf?, .named key new.allowExisting⟩ := by
        rw [Wish.of, hname]
        dsimp only
        rw [hkey]
        rfl
      have hstart : Stage.step now sh (.start (.create i new)) = some (none, sh,
          .draft ⟨i, new.titleOf?, .named key new.allowExisting⟩) := by
        simp only [Stage.step, Stage.look, hof, Option.map_some]
      obtain ⟨sh', hsteps, hshows⟩ :=
        leads_named now h i new.titleOf? key new.allowExisting
      dsimp only
      rw [hkey]
      exact ⟨sh', .step hstart hsteps, hshows⟩

/-- **Resolving an identity's session.** -/
theorem leads_resolve (h : Shows sh t) (i : Identity) :
    ∃ sh', Leads now sh (.start (.resolve i)) sh' (.returned (.key (t.resolve i now).1)) ∧
      Shows sh' (t.resolve i now).2 := by
  have hcontains : t.sessions.contains = sh.index.contains := funext h.contains_eq
  unfold Store.resolve
  rw [h.overrides, hcontains]
  cases hover : (sh.overrides.get? i).filter sh.index.contains with
  | some key =>
    refine ⟨sh, .step (o := none) rfl (leads_section (o := none) h.free h.free ?_), h⟩
    simp only [Stage.step, Stage.look, hover]
    rfl
  | none =>
    have hconsult : Leads now sh (.start (.resolve i)) sh (.draft ⟨i, none, .default⟩) := by
      refine .step (o := none) rfl (leads_section (o := none) h.free h.free ?_)
      simp only [Stage.step, Stage.look, hover]
      rfl
    have hsession : (.new i.defaultKey i none now : Session) =
      Wish.session ⟨i, none, .default⟩ now := rfl
    dsimp only
    rw [hsession]
    cases hn : sh.index.get? i.defaultKey with
    | some n =>
      obtain ⟨x, -, -, hget⟩ := h.get?_of_index hn
      have hused : t.sessions.contains (Wish.session ⟨i, none, .default⟩ now).key := by
        show (t.sessions.get? i.defaultKey).isSome
        rw [hget]
        rfl
      have hmet := leads_met now (w := ⟨i, none, .default⟩) h.free hn
      rw [Store.insertVacant, if_pos hused]
      exact ⟨sh, hconsult.trans hmet, h⟩
    | none =>
      have hmade := leads_made now (w := ⟨i, none, .default⟩) h hn
      cases hinsert : t.insertVacant (Wish.session ⟨i, none, .default⟩ now) with
      | mk result t' =>
        rw [hinsert] at hmade
        cases result with
        | ok made =>
          obtain ⟨-, sh', hsteps, hshows, -⟩ := hmade
          exact ⟨sh', hconsult.trans hsteps, hshows⟩
        | error e =>
          obtain ⟨e', sh', rfl, hsteps, hshows⟩ := hmade
          exact ⟨sh', hconsult.trans hsteps, hshows⟩

/-! ## Writing and deleting -/

/-- A job done at once. -/
def Job.perform (now : Timestamp) (t : Store) (d : Directory) (key : SessionKey) (job : Job) :
    Except Error Unit × Store :=
  match t.sessions.get? key with
  | none => (.error (.sessionNotFound key.text), t)
  | some x =>
    match job.write now x d with
    | (.ok (), d) =>
      (.ok (), { t with sessions := t.sessions.set key (job.apply now x), disk := some d })
    | (.error e, d) => (.error (.file e), { t with disk := some d })

theorem append_eq_perform (hdisk : t.disk = some d) (u : Turn) :
    t.append key u now = Job.perform now t d key (.say u) := by
  unfold Store.append Job.perform
  rw [hdisk]
  rfl

theorem clear_eq_perform (hdisk : t.disk = some d) :
    t.clear key now = Job.perform now t d key .clear := by
  unfold Store.clear Job.perform
  rw [hdisk]
  rfl

/-- **Working on the session under a key.** -/
theorem leads_attend (now : Timestamp) (h : Shows sh t) (key : SessionKey) (job : Job) :
    ∃ sh', Leads now sh (Stage.attend sh key job) sh'
        (.returned (.unit (Job.perform now t sh.disk key job).1)) ∧
      Shows sh' (Job.perform now t sh.disk key job).2 := by
  unfold Stage.attend Job.perform
  cases hn : sh.index.get? key with
  | none =>
    rw [h.get?_eq_none_iff.2 hn]
    exact ⟨sh, .refl _ _, h⟩
  | some n =>
    obtain ⟨x, hx, -, hget⟩ := h.get?_of_index hn
    rw [hget]
    dsimp only
    cases hwrite : job.write now x sh.disk with
    | mk result d =>
      cases result with
      | ok u =>
        have hshows := h.work hn hx (Job.continues now x job) d
        refine ⟨_, leads_section (o := some (job.deed now x)) h.free hshows.free ?_, hshows⟩
        simp only [Stage.step, hx, Option.map_some, hwrite]
      | error e =>
        have hshows := h.withDisk d
        refine ⟨_, leads_section (o := some (.refused e)) h.free hshows.free ?_, hshows⟩
        simp only [Stage.step, hx, Option.map_some, hwrite]

/-- The key of a session goes. -/
theorem Shows.forget (h : Shows sh t) (key : SessionKey) :
    Shows { sh with index := sh.index.erase key }
      { t with sessions := t.sessions.erase key } where
  sessions other := by
    dsimp only
    rw [Table.get?_erase, Table.get?_erase]
    split
    · rfl
    · exact h.sessions other
  overrides := h.overrides
  disk := h.disk
  indexed := h.indexed.forget key
  free := h.free

/-- The override that names a deleted session is dropped, as far as the directory goes along. -/
theorem leads_drop (now : Timestamp) (h : Shows sh t) (i : Identity) (key : SessionKey) :
    ∃ sh', Leads now { sh with held := [.overrides] } (.drop i key) sh'
        (.returned (.key (.ok key))) ∧
      Shows sh' (if t.overrides.get? i = some key then t.dropOverride i else t) := by
  rw [h.overrides]
  by_cases hover : sh.overrides.get? i = some key
  case pos =>
    obtain ⟨dropped, hdropped⟩ : ∃ dropped : Shared, dropped = { sh with
      overrides := sh.overrides.erase i
      disk := (sh.disk.writeOverrides (sh.overrides.erase i)).2 } := ⟨_, rfl⟩
    have hdrop : Stage.step now { sh with held := [.overrides] } (.drop i key) =
        some (none, { dropped with held := [.overrides] },
          .free .overrides (.returned (.key (.ok key)))) := by
      rw [hdropped]
      simp only [Stage.step, if_pos hover]
    refine ⟨dropped, (Leads.of_step hdrop).trans (leads_free (hdropped ▸ h.free) _ _), ?_⟩
    have hstore : t.dropOverride i = { t with
        overrides := sh.overrides.erase i
        disk := some (sh.disk.writeOverrides (sh.overrides.erase i)).2 } := by
      unfold Store.dropOverride
      rw [h.overrides, h.disk]
    rw [if_pos hover, hstore, hdropped]
    exact ⟨h.sessions, rfl, rfl, h.indexed, h.free⟩
  case neg =>
    have hdrop : Stage.step now { sh with held := [.overrides] } (.drop i key) =
        some (none, { sh with held := [.overrides] },
          .free .overrides (.returned (.key (.ok key)))) := by
      simp only [Stage.step, if_neg hover]
    rw [if_neg hover]
    exact ⟨sh, (Leads.of_step hdrop).trans (leads_free h.free _ _), h⟩

/-- **Deleting a session.** -/
theorem leads_delete (h : Shows sh t) (i : Identity) (name : String) :
    ∃ sh', Leads now sh (.start (.delete i name)) sh' (.returned (.key (t.delete i name).1)) ∧
      Shows sh' (t.delete i name).2 := by
  unfold Store.delete Store.lookup
  dsimp only
  rw [h.contains_eq]
  by_cases hfound : (i.owns (Store.nameKey i name.trimBlank) &&
      sh.index.contains (Store.nameKey i name.trimBlank)) = true
  case neg =>
    rw [if_neg hfound]
    refine ⟨sh, .step (o := none) rfl (leads_section (o := none) h.free h.free ?_), h⟩
    simp only [Stage.step, Stage.look, if_neg hfound, Option.map_some]
  case pos =>
    rw [if_pos hfound, h.disk]
    have hseek : Stage.step now { sh with held := [.overrides] } (.seek i name) =
        some (none, { sh with held := [.overrides] },
          .unlink i (Store.nameKey i name.trimBlank)) := by
      simp only [Stage.step, Stage.look, if_pos hfound, Option.map_some]
    have hstart : Leads now sh (.start (.delete i name)) { sh with held := [.overrides] }
        (.unlink i (Store.nameKey i name.trimBlank)) :=
      .step (o := none) rfl ((leads_take h.free _ _).trans (.of_step hseek))
    generalize Store.nameKey i name.trimBlank = key at hstart
    dsimp only
    cases hremove : sh.disk.removeSession key with
    | error e =>
      have hrefused : Stage.step now { sh with held := [.overrides] } (.unlink i key) =
          some (some (.refused e), { sh with held := [.overrides] },
            .free .overrides (.returned (.key (.error (.file e))))) := by
        simp only [Stage.step, hremove]
      exact ⟨sh, hstart.trans ((Leads.of_step hrefused).trans (leads_free h.free _ _)), h⟩
    | ok d =>
      have hunlink : Stage.step now { sh with held := [.overrides] } (.unlink i key) =
          some (some (.unlinked key), { sh with disk := d, held := [.overrides] },
            .forget i key) := by
        simp only [Stage.step, hremove]
      obtain ⟨sh', hdrop, hshows⟩ := leads_drop now ((h.withDisk d).forget key) i key
      refine ⟨sh', hstart.trans (.step hunlink ?_), hshows⟩
      exact .step (o := some (.forgotten key)) rfl hdrop

/-- **A call that nobody disturbs does what the store does at once.** -/
theorem leads_of_shows (h : Shows sh t) (now : Timestamp) (c : Call) :
    ∃ sh', Leads now sh (.start c) sh' (.returned (c.reply (t.answer now c.request).1)) ∧
      Shows sh' (t.answer now c.request).2 := by
  cases c with
  | create i new => exact leads_create h i new
  | resolve i => exact leads_resolve h i
  | append key u =>
    obtain ⟨sh', hsteps, hshows⟩ := leads_attend now h key (.say u)
    show ∃ sh', Leads now sh _ sh' (.returned (.unit (t.append key u now).1)) ∧
      Shows sh' (t.append key u now).2
    rw [append_eq_perform h.disk]
    exact ⟨sh', .step (o := none) rfl hsteps, hshows⟩
  | clear key =>
    obtain ⟨sh', hsteps, hshows⟩ := leads_attend now h key .clear
    show ∃ sh', Leads now sh _ sh' (.returned (.unit (t.clear key now).1)) ∧
      Shows sh' (t.clear key now).2
    rw [clear_eq_perform h.disk]
    exact ⟨sh', .step (o := none) rfl hsteps, hshows⟩
  | delete i name => exact leads_delete h i name

end Parley.Slots
