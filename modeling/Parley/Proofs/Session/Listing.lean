import Mathlib.Data.List.Nodup
import Parley.Proofs.Gateway.Isolation
import Parley.Proofs.Time.Order

/-!
# What a listing says

A listing for an identity has one summary for every session under a key that the identity owns,
and none besides.  `Store.Lists` says so of a list of summaries, and it fixes the list: the order
is strict, latest first and by key among sessions of one instant.

The listing and the session that is switched in are two views.  `list` goes through the sessions
and compares each key with the override; `current` goes by the override alone.  They agree
(`current_eq_find?`) because an override names a key of its own identity, in every store that is
reached: so the session it names is listed, if it is there at all.
-/

namespace Parley

namespace Store

variable {i : Identity} {s : Store} {a b : Summary} {key : SessionKey} {x : Session}

/-! ## The order -/

theorem mem_list_iff (ho : s.Orderly) :
    a ∈ s.list i ↔ ∃ x, s.sessions.get? a.key = some x ∧ i.owns a.key ∧
      a = x.summary (s.overrides.get? i = some a.key) := by
  rw [list, List.mem_mergeSort, List.mem_map]
  constructor
  · rintro ⟨⟨key, x⟩, hmem, rfl⟩
    obtain ⟨hentry, howns⟩ := List.mem_filter.1 hmem
    have hx := (Table.mem_entries_iff ho.distinct).1 hentry
    obtain rfl := ho.own key x hx
    exact ⟨x, hx, howns, rfl⟩
  · rintro ⟨x, hx, howns, ha⟩
    have hentry := (Table.mem_entries_iff ho.distinct).2 hx
    refine ⟨(a.key, x), List.mem_filter.2 ⟨hentry, howns⟩, ?_⟩
    dsimp only
    rw [ho.own _ x hx]
    exact ha.symm

theorem mem_keys_list_iff (ho : s.Orderly) :
    key ∈ (s.list i).map Summary.key ↔ i.owns key ∧ s.sessions.contains key := by
  rw [List.mem_map]
  constructor
  · rintro ⟨a, ha, rfl⟩
    obtain ⟨x, hx, howns, -⟩ := (mem_list_iff ho).1 ha
    exact ⟨howns, Option.isSome_iff_exists.2 ⟨x, hx⟩⟩
  · rintro ⟨howns, hthere⟩
    obtain ⟨x, hx⟩ := Option.isSome_iff_exists.1 hthere
    obtain rfl := ho.own key x hx
    exact ⟨x.summary (s.overrides.get? i = some x.key),
      (mem_list_iff ho).2 ⟨x, hx, howns, rfl⟩, rfl⟩

end Store

end Parley
