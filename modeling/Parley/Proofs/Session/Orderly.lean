import Parley.Proofs.Session.Effects

/-!
# Stores in order

A store is in order when every session is under its own key and every override names a key of its
identity.  A store is in order when it was opened, whatever the directory holds
(`orderly_openAt`), and stays in order under every request, whatever the directory takes
(`Orderly.answer`).  So a listing for an identity has the identity's own sessions only
(`Orderly.owns_of_mem_list`).
-/

namespace Parley.Store

variable {i : Identity} {s : Store} {key : SessionKey} {x : Session}

/-- Every session is under its own key, and every override names a key of its identity. -/
structure Orderly (s : Store) : Prop where
  distinct : s.sessions.Distinct
  own : ∀ key x, s.sessions.get? key = some x → x.key = key
  switched : ∀ i key, s.overrides.get? i = some key → i.owns key

theorem orderly_inMemory : inMemory.Orderly :=
  ⟨Table.distinct_empty, nofun, nofun⟩

/-- **A store that was opened is in order**, whatever the directory holds. -/
theorem orderly_openAt {d d' : Directory} (h : openAt d = (.ok s, d')) : s.Orderly := by
  rw [(openAt_ok h).1]
  refine ⟨Table.distinct_foldl_set _ Table.distinct_empty,
    fun key x hx => (Directory.exists_holds hx).1, fun i key hkey => ?_⟩
  rw [get?_sound (distinct_overrides d), Option.filter_eq_some_iff, Bool.and_eq_true] at hkey
  exact hkey.2.1

namespace Orderly

theorem withDisk (h : s.Orderly) (disk : Option Directory) : ({ s with disk } : Store).Orderly :=
  ⟨h.distinct, h.own, h.switched⟩

theorem set (h : s.Orderly) (hx : x.key = key) (disk : Option Directory) :
    Orderly ⟨s.sessions.set key x, s.overrides, disk⟩ := by
  refine ⟨h.distinct.set key x, fun other y hy => ?_, h.switched⟩
  rw [Table.get?_set] at hy
  split at hy
  · rename_i hother
    cases hy
    rw [hother, hx]
  · exact h.own other y hy

theorem erase (h : s.Orderly) (key : SessionKey) (disk : Option Directory) :
    Orderly ⟨s.sessions.erase key, s.overrides, disk⟩ := by
  refine ⟨h.distinct.erase key, fun other y hy => ?_, h.switched⟩
  rw [Table.get?_erase] at hy
  split at hy
  · cases hy
  · exact h.own other y hy

theorem switch (h : s.Orderly) (hkey : i.owns key) (disk : Option Directory) :
    Orderly ⟨s.sessions, s.overrides.set i key, disk⟩ := by
  refine ⟨h.distinct, h.own, fun j other hother => ?_⟩
  rw [Table.get?_set] at hother
  split at hother
  · rename_i hj
    cases hother
    rw [hj]
    exact hkey
  · exact h.switched j other hother

theorem reset (h : s.Orderly) (i : Identity) (disk : Option Directory) :
    Orderly ⟨s.sessions, s.overrides.erase i, disk⟩ := by
  refine ⟨h.distinct, h.own, fun j other hother => ?_⟩
  rw [Table.get?_erase] at hother
  split at hother
  · cases hother
  · exact h.switched j other hother

/-- Every change keeps the store in order. -/
theorem of_moves (h : s.Orderly) {now : Timestamp} {r : StoreRequest}
    {sessions : Table SessionKey Session} {overrides : Table Identity SessionKey}
    (hmoves : Moves now s r sessions overrides) (disk : Option Directory) :
    Orderly ⟨sessions, overrides, disk⟩ := by
  cases hmoves with
  | stay => exact h.withDisk disk
  | create | resolve =>
    refine h.set ?_ disk
    rfl
  | append hthere | clear hthere =>
    have hown := h.own _ _ hthere
    refine h.set ?_ disk
    exact hown
  | switch hkey => exact h.switch hkey disk
  | reset => exact h.reset _ disk
  | delete =>
    split
    · exact (h.erase _ disk).reset _ disk
    · exact h.erase _ disk

/-- **Every request keeps the store in order.** -/
theorem answer (h : s.Orderly) (now : Timestamp) (r : StoreRequest) :
    (Store.answer now r s).2.Orderly :=
  h.of_moves (moves_answer now r s) _

/-- **A listing for an identity has its own sessions only**, under their keys. -/
theorem owns_of_mem_list (h : s.Orderly) {a : Summary} (ha : a ∈ s.list i) : i.owns a.key := by
  rw [list, List.mem_mergeSort, List.mem_map] at ha
  obtain ⟨⟨key, x⟩, hmem, rfl⟩ := ha
  obtain ⟨hentry, hkey⟩ := List.mem_filter.1 hmem
  have hown : x.key = key := h.own key x ((Table.mem_entries_iff h.distinct).1 hentry)
  change i.owns x.key
  rwa [hown]

end Orderly

end Parley.Store
