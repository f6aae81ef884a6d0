import Parley.Proofs.Session.Orderly

/-!
# What belongs to an identity

The sessions under keys that an identity owns belong to it, and so does its override.  Two stores
can agree on what belongs to the identity (`AgreeOn`), or on everything else (`AgreeBeyond`); in
both cases their directories resist in the same way.

A request *for* an identity is one that it makes about its own sessions.  Such a request changes
nothing beyond what belongs to the identity (`agreeBeyond_answer`), and its answer depends on
nothing beyond that either: where stores agree on the identity's belongings it is answered the
same, and leaves them in agreement (`AgreeOn.answer`).
-/

namespace Parley

/-- The request is made for the identity, about its own sessions. -/
def StoreRequest.IsFor (i : Identity) : StoreRequest → Prop
  | .create j _ | .switch j _ | .reset j | .resolve j | .current j | .list j | .delete j _ => j = i
  | .transcript key => i.owns key
  | .get _ | .append .. | .clear _ | .size => False

/-- Whether a key names no session of the identity. -/
def Identity.disowns (i : Identity) (key : SessionKey) : Bool := !i.owns key

theorem Identity.not_disowns {i : Identity} {key : SessionKey} (h : i.owns key) :
    ¬ i.disowns key := by
  rw [disowns, h]
  exact nofun

theorem Identity.Apart.disowns {i j : Identity} (h : i.Apart j) (key : SessionKey)
    (hj : j.owns key) : i.disowns key := by
  rw [Identity.disowns, Bool.not_eq_true']
  exact Bool.eq_false_iff.2 fun hi => h key hi hj

namespace Store

variable {i j : Identity} {s t u : Store} {key : SessionKey} {x : Session} {now : Timestamp}

/-! ## Agreement -/

/-- The stores agree on the sessions and the override of an identity. -/
structure AgreeOn (i : Identity) (s t : Store) : Prop where
  sessions : s.sessions.within i.owns = t.sessions.within i.owns
  override : s.overrides.get? i = t.overrides.get? i
  disk : Option.Rel Directory.Alike s.disk t.disk

/-- The stores agree on all sessions and overrides but those of an identity. -/
structure AgreeBeyond (i : Identity) (s t : Store) : Prop where
  sessions : s.sessions.within i.disowns = t.sessions.within i.disowns
  overrides : ∀ j, j ≠ i → s.overrides.get? j = t.overrides.get? j
  disk : Option.Rel Directory.Alike s.disk t.disk

/-- **What lies beyond an identity has in it what belongs to one that shares no key with it.** -/
theorem AgreeBeyond.agreeOn (h : s.AgreeBeyond i t) (hapart : i.Apart j) : s.AgreeOn j t := by
  refine ⟨?_, h.overrides j ?_, h.disk⟩
  · rw [← Table.within_within hapart.disowns s.sessions, h.sessions,
      Table.within_within hapart.disowns]
  · rintro rfl
    exact hapart _ (owns_defaultKey j) (owns_defaultKey j)

/-! ## Changes -/

namespace AgreeBeyond

theorem refl (i : Identity) (s : Store) : s.AgreeBeyond i s := ⟨rfl, fun _ _ => rfl, alike_refl _⟩

theorem trans (h : s.AgreeBeyond i t) (h' : t.AgreeBeyond i u) : s.AgreeBeyond i u :=
  ⟨h.sessions.trans h'.sessions, fun j hj => (h.overrides j hj).trans (h'.overrides j hj),
    alike_trans h.disk h'.disk⟩

end AgreeBeyond

theorem get?_set_others {overrides : Table Identity SessionKey} (hj : j ≠ i) :
    (overrides.set i key).get? j = overrides.get? j := by
  rw [Table.get?_set, if_neg hj]

theorem get?_erase_others {overrides : Table Identity SessionKey} (hj : j ≠ i) :
    (overrides.erase i).get? j = overrides.get? j := by
  rw [Table.get?_erase, if_neg hj]

/-- A change for an identity leaves the sessions and overrides of all others as they are. -/
theorem agreeBeyond_of_moves {r : StoreRequest} (hr : r.IsFor i)
    {sessions : Table SessionKey Session} {overrides : Table Identity SessionKey}
    {disk : Option Directory} (hmoves : Moves now s r sessions overrides)
    (hdisk : Option.Rel Directory.Alike s.disk disk) :
    s.AgreeBeyond i ⟨sessions, overrides, disk⟩ := by
  cases hmoves with
  | stay => exact ⟨rfl, fun _ _ => rfl, hdisk⟩
  | create hkey hvacant =>
    obtain rfl := hr
    exact ⟨(Table.within_set_of_not (Identity.not_disowns hkey) _ _).symm, fun _ _ => rfl, hdisk⟩
  | @resolve j hvacant =>
    obtain rfl := hr
    have hkey := Identity.not_disowns (owns_defaultKey j)
    exact ⟨(Table.within_set_of_not hkey _ _).symm, fun _ _ => rfl, hdisk⟩
  | switch hkey hthere =>
    obtain rfl := hr
    exact ⟨rfl, fun _ hj => (get?_set_others hj).symm, hdisk⟩
  | reset =>
    obtain rfl := hr
    exact ⟨rfl, fun _ hj => (get?_erase_others hj).symm, hdisk⟩
  | delete hkey hthere =>
    obtain rfl := hr
    refine ⟨(Table.within_erase_of_not (Identity.not_disowns hkey) _).symm, fun _ hj => ?_, hdisk⟩
    dsimp only
    split
    · exact (get?_erase_others hj).symm
    · rfl
  | append | clear => exact hr.elim

/-- **A request for an identity changes nothing beyond what belongs to the identity.** -/
theorem agreeBeyond_answer {r : StoreRequest} (hr : r.IsFor i) (now : Timestamp) (s : Store) :
    s.AgreeBeyond i (answer now r s).2 :=
  agreeBeyond_of_moves hr (moves_answer now r s) (alike_answer now r s)

/-! ## Answers -/

namespace AgreeOn

theorem get? (h : s.AgreeOn i t) (hkey : i.owns key) :
    s.sessions.get? key = t.sessions.get? key := by
  rw [← Table.get?_within hkey s.sessions, h.sessions, Table.get?_within hkey]

theorem contains (h : s.AgreeOn i t) (hkey : i.owns key) :
    s.sessions.contains key = t.sessions.contains key := by
  rw [Table.contains, Table.contains, h.get? hkey]

/-- The same session was put there. -/
theorem set (h : s.AgreeOn i t) (hkey : i.owns key) (x : Session) :
    AgreeOn i { s with sessions := s.sessions.set key x }
      { t with sessions := t.sessions.set key x } := by
  refine ⟨?_, h.override, h.disk⟩
  rw [Table.within_set hkey, Table.within_set hkey, h.sessions]

/-- The same session was taken away. -/
theorem erase (h : s.AgreeOn i t) (key : SessionKey) :
    AgreeOn i { s with sessions := s.sessions.erase key }
      { t with sessions := t.sessions.erase key } := by
  refine ⟨?_, h.override, h.disk⟩
  rw [Table.within_erase, Table.within_erase, h.sessions]

/-- The override was changed in the same way. -/
theorem switched (h : s.AgreeOn i t) {overrides overrides' : Table Identity SessionKey}
    (hoverride : overrides.get? i = overrides'.get? i) :
    AgreeOn i { s with overrides } { t with overrides := overrides' } :=
  ⟨h.sessions, hoverride, h.disk⟩

/-- The directories were written to. -/
theorem write {d e : Directory} (h : s.AgreeOn i t) (halike : d.Alike e) :
    AgreeOn i { s with disk := some d } { t with disk := some e } :=
  ⟨h.sessions, h.override, .some halike⟩

theorem insertVacant (h : s.AgreeOn i t) (hx : i.owns x.key) :
    (s.insertVacant x).1 = (t.insertVacant x).1 ∧
      (s.insertVacant x).2.AgreeOn i (t.insertVacant x).2 := by
  have hcontains := h.contains hx
  have hput := h.set hx x
  obtain ⟨sessions, overrides, disk⟩ := s
  obtain ⟨sessions', overrides', disk'⟩ := t
  rw [Store.insertVacant, Store.insertVacant, hcontains]
  split
  · exact ⟨rfl, h⟩
  cases h.disk with
  | none => exact ⟨rfl, hput⟩
  | some halike =>
    obtain ⟨d, e, hwritten, ⟨hd, he⟩ | ⟨f, hd, he⟩⟩ := halike.replace _ _ _ <;>
      dsimp only [Directory.writeSession] <;> rw [hd, he]
    · exact ⟨rfl, hput.write hwritten⟩
    · exact ⟨rfl, h.write hwritten⟩

theorem keepOverrides (h : s.AgreeOn i t) {overrides overrides' : Table Identity SessionKey}
    (hkept : overrides.get? i = overrides'.get? i) :
    (s.keepOverrides overrides).1 = (t.keepOverrides overrides').1 ∧
      (s.keepOverrides overrides).2.AgreeOn i (t.keepOverrides overrides').2 := by
  have hswitched := h.switched hkept
  obtain ⟨sessions, before, disk⟩ := s
  obtain ⟨sessions', before', disk'⟩ := t
  rw [Store.keepOverrides, Store.keepOverrides]
  cases h.disk with
  | none => exact ⟨rfl, hswitched⟩
  | some halike =>
    obtain ⟨d, e, hwritten, ⟨hd, he⟩ | ⟨f, hd, he⟩⟩ :=
        halike.replace SessionFile.overridesName (SessionFile.overridesText overrides)
          (SessionFile.overridesText overrides') <;>
      dsimp only [Directory.writeOverrides] <;> rw [hd, he]
    · exact ⟨rfl, hswitched.write hwritten⟩
    · exact ⟨rfl, h.write hwritten⟩

theorem dropOverride (h : s.AgreeOn i t) : (s.dropOverride i).AgreeOn i (t.dropOverride i) := by
  have herased : (s.overrides.erase i).get? i = (t.overrides.erase i).get? i := by
    rw [Table.get?_erase_self, Table.get?_erase_self]
  have hswitched := h.switched herased
  obtain ⟨sessions, before, disk⟩ := s
  obtain ⟨sessions', before', disk'⟩ := t
  rw [Store.dropOverride, Store.dropOverride]
  cases h.disk with
  | none => exact hswitched
  | some halike =>
    exact hswitched.write ((Directory.alike_replace _ _ _).symm.trans
      (halike.trans (Directory.alike_replace _ _ _)))

theorem summaryOf (h : s.AgreeOn i t) (hkey : i.owns key) :
    s.summaryOf i key = t.summaryOf i key := by
  rw [Store.summaryOf, Store.summaryOf, h.get? hkey, h.override]

theorem createAt (h : s.AgreeOn i t) (hkey : i.owns key) (title : Option String)
    (allowExisting : Bool) (now : Timestamp) :
    (s.createAt i key title allowExisting now).1 = (t.createAt i key title allowExisting now).1 ∧
      (s.createAt i key title allowExisting now).2.AgreeOn i
        (t.createAt i key title allowExisting now).2 := by
  obtain ⟨hout, hagree⟩ := h.insertVacant (x := .new key i title now) hkey
  rw [Store.createAt, Store.createAt]
  revert hout hagree
  rcases s.insertVacant _ with ⟨out, s'⟩
  rcases t.insertVacant _ with ⟨_, t'⟩
  rintro ⟨⟩ hagree
  rcases out with e | _ | _
  · exact ⟨rfl, hagree⟩
  · dsimp only
    rw [hagree.summaryOf hkey]
    exact ⟨rfl, hagree⟩
  · exact ⟨hagree.summaryOf hkey, hagree⟩

theorem create (h : s.AgreeOn i t) (new : NewSession) (now : Timestamp) :
    (s.create i new now).1 = (t.create i new now).1 ∧
      (s.create i new now).2.AgreeOn i (t.create i new now).2 := by
  rw [Store.create, Store.create]
  split
  · rw [vacantKey_congr (fun _ hkey => h.contains hkey) now]
    exact h.createAt (owns_vacantKey t i now) ..
  · split
    · exact ⟨rfl, h⟩
    · rename_i hkey
      exact h.createAt (owns_requestedKey hkey) ..

theorem lookup (h : s.AgreeOn i t) (raw : String) : s.lookup i raw = t.lookup i raw := by
  rw [Store.lookup, Store.lookup]
  cases howns : i.owns (nameKey i raw.trimBlank) with
  | false => rfl
  | true => rw [h.contains howns]

theorem switch (h : s.AgreeOn i t) (raw : String) :
    (s.switch i raw).1 = (t.switch i raw).1 ∧
      (s.switch i raw).2.AgreeOn i (t.switch i raw).2 := by
  unfold Store.switch
  rw [h.lookup]
  cases hlookup : t.lookup i raw with
  | error e => exact ⟨rfl, h⟩
  | ok key =>
    have hset : (s.overrides.set i key).get? i = (t.overrides.set i key).get? i := by
      rw [Table.get?_set_self, Table.get?_set_self]
    obtain ⟨hout, hagree⟩ := h.keepOverrides hset
    dsimp only
    revert hout hagree
    rcases s.keepOverrides _ with ⟨out, s'⟩
    rcases t.keepOverrides _ with ⟨_, t'⟩
    rintro ⟨⟩ hagree
    rcases out with e | _
    · exact ⟨rfl, hagree⟩
    · have hget := hagree.get? (lookup_ok hlookup).1
      dsimp only at hget ⊢
      rw [hget]
      cases t'.sessions.get? key <;> exact ⟨rfl, hagree⟩

theorem reset (h : s.AgreeOn i t) :
    (s.reset i).1 = (t.reset i).1 ∧ (s.reset i).2.AgreeOn i (t.reset i).2 := by
  rw [Store.reset, Store.reset, h.override]
  split
  · exact ⟨rfl, h⟩
  · refine h.keepOverrides ?_
    rw [Table.get?_erase_self, Table.get?_erase_self]

theorem resolve (horderly : s.Orderly) (h : s.AgreeOn i t) (now : Timestamp) :
    (s.resolve i now).1 = (t.resolve i now).1 ∧
      (s.resolve i now).2.AgreeOn i (t.resolve i now).2 := by
  have hoverride : (s.overrides.get? i).filter s.sessions.contains =
      (t.overrides.get? i).filter t.sessions.contains := by
    rw [← h.override]
    cases hkey : s.overrides.get? i with
    | none => rfl
    | some key =>
      rw [Option.filter_some, Option.filter_some, h.contains (horderly.switched i key hkey)]
  obtain ⟨hout, hagree⟩ := h.insertVacant (x := .new i.defaultKey i none now) (owns_defaultKey i)
  rw [Store.resolve, Store.resolve, hoverride]
  split
  · exact ⟨rfl, h⟩
  · revert hout hagree
    rcases s.insertVacant _ with ⟨out, s'⟩
    rcases t.insertVacant _ with ⟨_, t'⟩
    rintro ⟨⟩ hagree
    rcases out with e | _ <;> exact ⟨rfl, hagree⟩

theorem current (horderly : s.Orderly) (h : s.AgreeOn i t) : s.current i = t.current i := by
  rw [Store.current, Store.current, ← h.override]
  cases hkey : s.overrides.get? i with
  | none => rfl
  | some key =>
    rw [Option.bind_eq_bind, Option.bind_some, h.get? (horderly.switched i key hkey)]
    rfl

theorem list (h : s.AgreeOn i t) : s.list i = t.list i := by
  rw [Store.list, Store.list, h.override]
  exact congrArg (fun owned : List (SessionKey × Session) => (owned.map fun e =>
    e.2.summary (t.overrides.get? i = some e.2.key)).mergeSort before)
    (congrArg Table.entries h.sessions)

theorem delete (h : s.AgreeOn i t) (raw : String) :
    (s.delete i raw).1 = (t.delete i raw).1 ∧
      (s.delete i raw).2.AgreeOn i (t.delete i raw).2 := by
  have hgone {s t : Store} (h : s.AgreeOn i t) (key : SessionKey) :
      AgreeOn i
        (if s.overrides.get? i = some key
          then ({ s with sessions := s.sessions.erase key } : Store).dropOverride i
          else { s with sessions := s.sessions.erase key })
        (if t.overrides.get? i = some key
          then ({ t with sessions := t.sessions.erase key } : Store).dropOverride i
          else { t with sessions := t.sessions.erase key }) := by
    rw [h.override]
    split
    · exact (h.erase key).dropOverride
    · exact h.erase key
  unfold Store.delete
  rw [h.lookup]
  obtain ⟨sessions, overrides, disk⟩ := s
  obtain ⟨sessions', overrides', disk'⟩ := t
  split
  · exact ⟨rfl, h⟩
  rename_i key _
  cases h.disk with
  | none => exact ⟨rfl, hgone h key⟩
  | some halike =>
    rcases halike.removeSession key with ⟨d, e, hd, he, hremoved⟩ | ⟨f, hd, he⟩ <;>
      dsimp only <;> rw [hd, he]
    · exact ⟨rfl, hgone (h.write hremoved) key⟩
    · exact ⟨rfl, h⟩

/-- **What a request for an identity is answered depends on nothing beyond what belongs to the
identity**, and neither does what it leaves of that. -/
theorem answer (horderly : s.Orderly) (h : s.AgreeOn i t) {r : StoreRequest} (hr : r.IsFor i)
    (now : Timestamp) :
    (Store.answer now r s).1 = (Store.answer now r t).1 ∧
      (Store.answer now r s).2.AgreeOn i (Store.answer now r t).2 := by
  cases r with
  | create j new =>
    cases hr
    exact h.create new now
  | switch j name =>
    cases hr
    exact h.switch name
  | reset j =>
    cases hr
    exact h.reset
  | resolve j =>
    cases hr
    exact resolve horderly h now
  | current j =>
    cases hr
    exact ⟨current horderly h, h⟩
  | list j =>
    cases hr
    exact ⟨h.list, h⟩
  | delete j name =>
    cases hr
    exact h.delete name
  | transcript key =>
    refine ⟨?_, h⟩
    rw [Store.answer, Store.answer, Store.transcript, Store.transcript, h.get? hr]
  | get | append | clear | size => exact hr.elim

end AgreeOn

end Store

end Parley
