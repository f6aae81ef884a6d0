import Mathlib.Data.List.Nodup
import Mathlib.Tactic.ByContra
import Mathlib.Tactic.Tauto
import Parley.Table

/-!
# Tables and their entries

Setting and erasing keep the keys of a table distinct (`Distinct.set`, `Distinct.erase`).  With
distinct keys the entries are what the view shows (`mem_entries_iff`), in whatever order they
stand.

A part of a table is cut out by a property of keys (`within`).  Setting or erasing a key happens
in the parts that the key belongs to (`within_set`, `within_erase`), and nowhere else.
-/

namespace Parley.Table

variable {κ ν : Type} [DecidableEq κ] {t : Table κ ν} {k l : κ} {v : ν}

/-- No key has two entries. -/
def Distinct (t : Table κ ν) : Prop := t.keys.Nodup

/-! ## Keys -/

theorem find_eq_none_iff {entries : List (κ × ν)} :
    find k entries = none ↔ k ∉ entries.map (·.1) := by
  induction entries with
  | nil => exact iff_of_true rfl List.not_mem_nil
  | cons e entries ih =>
    rw [find, List.map_cons, List.mem_cons, not_or]
    by_cases h : e.1 = k
    · rw [if_pos h]
      exact iff_of_false (Option.some_ne_none e.2) fun hnot => hnot.1 h.symm
    · rw [if_neg h, ih]
      exact ⟨fun hmem => ⟨Ne.symm h, hmem⟩, fun hnot => hnot.2⟩

theorem contains_iff_mem_keys : t.contains k ↔ k ∈ t.keys := by
  rw [contains, get?, keys]
  cases h : find k t.entries with
  | none => exact iff_of_false Bool.false_ne_true (find_eq_none_iff.1 h)
  | some v =>
    refine iff_of_true rfl ?_
    by_contra hnot
    rw [find_eq_none_iff.2 hnot] at h
    cases h

theorem mem_keys_of_get? (h : t.get? k = some v) : k ∈ t.keys := by
  rw [← contains_iff_mem_keys, contains, h]
  rfl

theorem contains_set_iff : (t.set k v).contains l ↔ l = k ∨ t.contains l := by
  rw [contains, get?_set]
  split
  · rename_i heq
    exact iff_of_true rfl (.inl heq)
  · rename_i hne
    exact (or_iff_right hne).symm

theorem contains_erase_iff : (t.erase k).contains l ↔ l ≠ k ∧ t.contains l := by
  rw [contains, get?_erase]
  split
  · rename_i heq
    exact iff_of_false Bool.false_ne_true fun hnot => hnot.1 heq
  · rename_i hne
    exact (and_iff_right hne).symm

theorem eq_empty (h : ∀ k, t.get? k = none) : t = empty := by
  obtain ⟨_ | ⟨⟨k, v⟩, entries⟩⟩ := t
  · rfl
  · have hk := h k
    rw [get?, find, if_pos rfl] at hk
    cases hk

/-! ## Undoing -/

theorem set_set (t : Table κ ν) (k : κ) (v w : ν) : (t.set k v).set k w = t.set k w := by
  obtain ⟨entries⟩ := t
  simp only [set, mk.injEq]
  induction entries with
  | nil => rw [put, put, put, if_pos rfl]
  | cons e entries ih =>
    by_cases he : e.1 = k
    · rw [put, if_pos he, put, if_pos rfl, put, if_pos he]
    · rw [put, if_neg he, put, if_neg he, put, if_neg he, ih]

/-- Setting a key to the value that it has. -/
theorem set_eq_self (h : t.get? k = some v) : t.set k v = t := by
  obtain ⟨entries⟩ := t
  simp only [set, get?, mk.injEq] at h ⊢
  induction entries with
  | nil => cases h
  | cons e entries ih =>
    by_cases he : e.1 = k
    · rw [find, if_pos he] at h
      rw [put, if_pos he, ← he, ← Option.some.inj h]
    · rw [find, if_neg he] at h
      rw [put, if_neg he, ih h]

/-- Erasing a key that was set, and had no value before. -/
theorem erase_set (h : t.get? k = none) (v : ν) : (t.set k v).erase k = t := by
  obtain ⟨entries⟩ := t
  simp only [set, erase, get?, mk.injEq] at h ⊢
  induction entries with
  | nil => simp [put, drop]
  | cons e entries ih =>
    by_cases he : e.1 = k
    · rw [find, if_pos he] at h
      cases h
    · rw [find, if_neg he] at h
      rw [put, if_neg he, drop, List.filter_cons, if_pos (decide_eq_true he)]
      exact congrArg _ (ih h)

/-! ## Distinct keys -/

omit [DecidableEq κ] in
theorem distinct_empty : (empty : Table κ ν).Distinct := List.nodup_nil

theorem mem_keys_put {entries : List (κ × ν)} :
    l ∈ (put k v entries).map (·.1) ↔ l = k ∨ l ∈ entries.map (·.1) := by
  induction entries with
  | nil => exact ⟨fun h => .inl (List.mem_singleton.1 h), fun h => by simpa [put] using h⟩
  | cons e entries ih =>
    rw [put]
    by_cases h : e.1 = k
    · rw [if_pos h, List.map_cons, List.map_cons, List.mem_cons, List.mem_cons, h]
      tauto
    · rw [if_neg h, List.map_cons, List.map_cons, List.mem_cons, List.mem_cons, ih]
      tauto

theorem Distinct.set (h : t.Distinct) (k : κ) (v : ν) : (t.set k v).Distinct := by
  obtain ⟨entries⟩ := t
  rw [Distinct, keys] at h ⊢
  rw [Table.set]
  dsimp only at h ⊢
  induction entries with
  | nil => exact List.nodup_singleton k
  | cons e entries ih =>
    rw [List.map_cons, List.nodup_cons] at h
    rw [put]
    by_cases he : e.1 = k
    · rw [if_pos he, List.map_cons, List.nodup_cons, ← he]
      exact h
    · rw [if_neg he, List.map_cons, List.nodup_cons, mem_keys_put]
      refine ⟨?_, ih h.2⟩
      rintro (heq | hmem)
      · exact he heq
      · exact h.1 hmem

theorem Distinct.erase (h : t.Distinct) (k : κ) : (t.erase k).Distinct := by
  rw [Distinct, keys] at h ⊢
  exact h.sublist (List.filter_sublist.map _)

/-- **With distinct keys, the entries are what the view shows.** -/
theorem mem_entries_iff (h : t.Distinct) : (k, v) ∈ t.entries ↔ t.get? k = some v := by
  obtain ⟨entries⟩ := t
  rw [Distinct, keys] at h
  rw [get?]
  dsimp only at h ⊢
  induction entries with
  | nil => exact iff_of_false List.not_mem_nil (Option.some_ne_none v).symm
  | cons e entries ih =>
    rw [List.map_cons, List.nodup_cons] at h
    rw [List.mem_cons, find, ih h.2]
    by_cases he : e.1 = k
    · rw [if_pos he, Option.some_inj]
      have hnone : find k entries = none := find_eq_none_iff.2 (he ▸ h.1)
      rw [hnone]
      constructor
      · rintro (rfl | hsome)
        · rfl
        · cases hsome
      · rintro rfl
        exact .inl (Prod.ext he.symm rfl)
    · rw [if_neg he]
      constructor
      · rintro (rfl | hsome)
        · exact absurd rfl he
        · exact hsome
      · exact .inr

/-! ## Tables that are filled -/

variable {α : Type} {f : α → κ} {g : α → ν}

theorem get?_foldl_set_of_ne {items : List α} (h : ∀ a ∈ items, f a ≠ k) (t : Table κ ν) :
    (items.foldl (fun t a => t.set (f a) (g a)) t).get? k = t.get? k := by
  induction items generalizing t with
  | nil => rfl
  | cons a items ih =>
    rw [List.foldl_cons, ih fun b hb => h b (List.mem_cons_of_mem _ hb), get?_set,
      if_neg (Ne.symm (h a List.mem_cons_self))]

/-- A key has a value only if an item has the key and the value. -/
theorem exists_of_get?_foldl_set {items : List α} {t : Table κ ν}
    (h : (items.foldl (fun t a => t.set (f a) (g a)) t).get? k = some v) :
    (∃ a ∈ items, f a = k ∧ g a = v) ∨ t.get? k = some v := by
  induction items generalizing t with
  | nil => exact .inr h
  | cons a items ih =>
    rcases ih h with ⟨b, hb, hvalue⟩ | hset
    · exact .inl ⟨b, List.mem_cons_of_mem _ hb, hvalue⟩
    · rw [get?_set] at hset
      split at hset
      · rename_i hkey
        exact .inl ⟨a, List.mem_cons_self, hkey.symm, Option.some.inj hset⟩
      · exact .inr hset

theorem contains_foldl_set_iff {items : List α} {t : Table κ ν} :
    (items.foldl (fun t a => t.set (f a) (g a)) t).contains k ↔
      (∃ a ∈ items, f a = k) ∨ t.contains k := by
  induction items generalizing t with
  | nil => simp
  | cons a items ih =>
    rw [List.foldl_cons, ih, contains_set_iff, List.exists_mem_cons_iff, or_assoc,
      eq_comm (a := k)]
    exact or_left_comm

/-- **A key gets the value that all items of that key agree on.** -/
theorem get?_foldl_set {items : List α} (h : ∀ a ∈ items, f a = k → g a = v)
    (hexists : ∃ a ∈ items, f a = k) (t : Table κ ν) :
    (items.foldl (fun t a => t.set (f a) (g a)) t).get? k = some v := by
  induction items generalizing t with
  | nil =>
    obtain ⟨a, ha, -⟩ := hexists
    cases ha
  | cons a items ih =>
    rw [List.foldl_cons]
    by_cases hmore : ∃ b ∈ items, f b = k
    · exact ih (fun b hb => h b (List.mem_cons_of_mem _ hb)) hmore _
    · have hnone : ∀ b ∈ items, f b ≠ k := fun b hb heq => hmore ⟨b, hb, heq⟩
      obtain ⟨b, hb, hkey⟩ := hexists
      rcases List.mem_cons.1 hb with rfl | hb
      · rw [get?_foldl_set_of_ne hnone, hkey, get?_set_self, h b List.mem_cons_self hkey]
      · exact absurd hkey (hnone b hb)

theorem distinct_foldl_set (items : List α) {t : Table κ ν} (h : t.Distinct) :
    (items.foldl (fun t a => t.set (f a) (g a)) t).Distinct := by
  induction items generalizing t with
  | nil => exact h
  | cons a items ih => exact ih (h.set _ _)

/-! ## Parts of a table -/

/-- The entries whose keys have a property. -/
def within (t : Table κ ν) (p : κ → Bool) : Table κ ν := ⟨t.entries.filter fun e => p e.1⟩

variable {p q : κ → Bool}

theorem get?_within (h : p k) (t : Table κ ν) : (t.within p).get? k = t.get? k := by
  obtain ⟨entries⟩ := t
  simp only [within, get?]
  induction entries with
  | nil => rfl
  | cons e entries ih =>
    by_cases he : e.1 = k
    · simp [find, he, h]
    · by_cases hp : p e.1 <;> simp [find, he, hp, ih]

theorem filter_put (entries : List (κ × ν)) (k : κ) (v : ν) :
    (put k v entries).filter (fun e => p e.1) =
      if p k then put k v (entries.filter fun e => p e.1) else entries.filter fun e => p e.1 := by
  induction entries with
  | nil => by_cases h : p k <;> simp [put, h]
  | cons e entries ih =>
    by_cases he : e.1 = k
    · by_cases h : p k <;> simp [put, he, h]
    · by_cases h : p k <;> by_cases hp : p e.1 <;> simp [put, he, h, hp, ih]

theorem within_set (h : p k) (t : Table κ ν) (v : ν) :
    (t.set k v).within p = (t.within p).set k v :=
  congrArg mk ((filter_put t.entries k v).trans (if_pos h))

theorem within_set_of_not (h : ¬ p k) (t : Table κ ν) (v : ν) :
    (t.set k v).within p = t.within p :=
  congrArg mk ((filter_put t.entries k v).trans (if_neg h))

theorem within_erase (t : Table κ ν) (k : κ) (p : κ → Bool) :
    (t.erase k).within p = (t.within p).erase k := by
  simp only [within, erase, drop, List.filter_filter, Bool.and_comm]

theorem within_erase_of_not (h : ¬ p k) (t : Table κ ν) : (t.erase k).within p = t.within p := by
  simp only [within, erase, drop, List.filter_filter, mk.injEq]
  refine List.filter_congr fun e _ => ?_
  by_cases he : e.1 = k
  · rw [he, Bool.eq_false_iff.2 h, Bool.false_and]
  · rw [decide_eq_true he, Bool.and_true]

omit [DecidableEq κ] in
/-- A part of a larger part. -/
theorem within_within (h : ∀ k, q k → p k) (t : Table κ ν) :
    (t.within p).within q = t.within q := by
  simp only [within, List.filter_filter, mk.injEq]
  refine List.filter_congr fun e _ => ?_
  cases hq : q e.1 with
  | false => rfl
  | true => rw [h e.1 hq, Bool.and_self]

end Parley.Table
