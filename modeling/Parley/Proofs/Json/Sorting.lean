import Mathlib.Data.List.Induction
import Mathlib.Data.List.Nodup
import Parley.Json.Basic

/-!
# Fields that are sorted

The fields of an object that is read are sorted by name, and of two with one name the last stays.
So sorted fields are in order (`pairwise_sortFields`) and are among those that were sorted
(`mem_of_mem_sortFields`), and all are there if no name is given twice (`mem_sortFields`).  Fields
that are in order stay as they are (`sortFields_of_pairwise`).

Each is shown of one field put into others, and then along the fields, the last first.
-/

namespace Parley.Json

variable {fields : List (String × Json)} {name : String} {value : Json} {f : String × Json}

/-! ## One field -/

theorem mem_of_mem_insertField (h : f ∈ insertField name value fields) :
    f = (name, value) ∨ f ∈ fields := by
  induction fields with
  | nil => exact .inl (List.mem_singleton.1 h)
  | cons g fields ih =>
    rw [insertField] at h
    split at h
    · exact (List.mem_cons.1 h).imp_right (List.mem_cons_of_mem g)
    · split at h
      · exact List.mem_cons.1 h
      · rcases List.mem_cons.1 h with rfl | h
        · exact .inr List.mem_cons_self
        · exact (ih h).imp_right (List.mem_cons_of_mem g)

/-- A field with a new name takes the place of none. -/
theorem mem_insertField (hnew : name ∉ fields.map (·.1)) :
    f ∈ insertField name value fields ↔ f = (name, value) ∨ f ∈ fields := by
  refine ⟨mem_of_mem_insertField, fun h => ?_⟩
  induction fields with
  | nil => exact List.mem_singleton.2 (h.resolve_right List.not_mem_nil)
  | cons g fields ih =>
    rw [List.map_cons, List.mem_cons, not_or] at hnew
    rw [insertField, if_neg hnew.1]
    split
    · exact List.mem_cons.2 h
    · rcases h with h | h
      · exact List.mem_cons_of_mem g (ih hnew.2 (.inl h))
      · rcases List.mem_cons.1 h with rfl | h
        · exact List.mem_cons_self
        · exact List.mem_cons_of_mem g (ih hnew.2 (.inr h))

theorem pairwise_insertField (name : String) (value : Json)
    (h : fields.Pairwise fun f g => f.1 < g.1) :
    (insertField name value fields).Pairwise fun f g => f.1 < g.1 := by
  induction fields with
  | nil => exact List.pairwise_singleton _ _
  | cons g fields ih =>
    obtain ⟨hg, hfields⟩ := List.pairwise_cons.1 h
    rw [insertField]
    by_cases hsame : name = g.1
    · rw [if_pos hsame]
      exact List.pairwise_cons.2 ⟨fun f hf => hsame ▸ hg f hf, hfields⟩
    · by_cases hless : name < g.1
      · rw [if_neg hsame, if_pos hless]
        refine List.pairwise_cons.2 ⟨List.forall_mem_cons.2 ⟨hless, fun f hf => ?_⟩, h⟩
        exact String.lt_trans hless (hg f hf)
      · have hgreater : g.1 < name :=
          Std.lt_of_le_of_ne (String.not_lt.1 hless) (Ne.symm hsame)
        rw [if_neg hsame, if_neg hless]
        refine List.pairwise_cons.2 ⟨fun f hf => ?_, ih hfields⟩
        rcases mem_of_mem_insertField hf with rfl | hf
        · exact hgreater
        · exact hg f hf

/-- A name after all others is put at the end. -/
theorem insertField_append (h : ∀ f ∈ fields, f.1 < name) (value : Json) :
    insertField name value fields = fields ++ [(name, value)] := by
  induction fields with
  | nil => rfl
  | cons f fields ih =>
    have hf := h f List.mem_cons_self
    have hne : name ≠ f.1 := by
      rintro rfl
      exact String.lt_irrefl _ hf
    have hnot : ¬name < f.1 := fun hlt => String.lt_asymm hlt hf
    rw [insertField, if_neg hne, if_neg hnot, ih fun g hg => h g (List.mem_cons_of_mem _ hg),
      List.cons_append]

/-! ## All fields -/

theorem sortFields_concat (fields : List (String × Json)) (f : String × Json) :
    sortFields (fields ++ [f]) = insertField f.1 f.2 (sortFields fields) := by
  rw [sortFields, List.foldl_append]
  rfl

/-- **Sorted fields are in order.** -/
theorem pairwise_sortFields (fields : List (String × Json)) :
    (sortFields fields).Pairwise fun f g => f.1 < g.1 := by
  induction fields using List.reverseRecOn with
  | nil => exact .nil
  | append_singleton fields g ih =>
    rw [sortFields_concat]
    exact pairwise_insertField g.1 g.2 ih

theorem mem_of_mem_sortFields (h : f ∈ sortFields fields) : f ∈ fields := by
  induction fields using List.reverseRecOn with
  | nil => exact h
  | append_singleton fields g ih =>
    rw [sortFields_concat] at h
    rcases mem_of_mem_insertField h with rfl | h
    · exact List.mem_append_right _ List.mem_cons_self
    · exact List.mem_append_left _ (ih h)

/-- **Sorting keeps the fields, if no name is given twice.** -/
theorem mem_sortFields (h : (fields.map (·.1)).Nodup) : f ∈ sortFields fields ↔ f ∈ fields := by
  induction fields using List.reverseRecOn with
  | nil => rfl
  | append_singleton fields g ih =>
    rw [List.map_append, List.nodup_append] at h
    obtain ⟨hnodup, -, hapart⟩ := h
    have hnew : g.1 ∉ (sortFields fields).map (·.1) := by
      intro hmem
      obtain ⟨e, he, heq⟩ := List.mem_map.1 hmem
      exact hapart e.1 (List.mem_map_of_mem (mem_of_mem_sortFields he)) g.1 List.mem_cons_self heq
    rw [sortFields_concat, mem_insertField hnew, ih hnodup, List.mem_append, List.mem_singleton,
      or_comm]

/-- Sorting leaves fields that are in order. -/
theorem sortFields_of_pairwise (h : fields.Pairwise fun f g => f.1 < g.1) :
    sortFields fields = fields := by
  induction fields using List.reverseRecOn with
  | nil => rfl
  | append_singleton fields g ih =>
    obtain ⟨hfields, -, hbefore⟩ := List.pairwise_append.1 h
    rw [sortFields_concat, ih hfields]
    exact insertField_append (fun f hf => hbefore f hf g List.mem_cons_self) g.2

end Parley.Json
