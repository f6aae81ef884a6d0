import Parley.Proofs.Json.Reading

/-!
# Values that were read

What is read of a text is a value as values come out of reading (`Plain`), if it holds no
floating-point number: its integers fit 64 bits, its objects have their fields in order, and it
nests no deeper than the text does (`plain_of_read?`).  It may nest less deep, for of two fields
with one name only the last is kept.  So the depth to which a value is plain is the height of its
own tree (`Plain.of_height_le`).
-/

namespace Parley.Json

open Parley.Json.Tree

variable {j : Json} {fields : List (String × Json)} {depth : Nat}

/-! ## The value of a tree -/

/-- An integer that was read fits 64 bits. -/
theorem plain_of_number {l : Decimal.Literal} {x : Decimal.Value} (h : l.value? = some x)
    (hexact : (ofValue x).Exact) : Plain depth (ofValue x) := by
  cases x with
  | float x => cases hexact
  | int i =>
    rw [Decimal.Literal.value?] at h
    split at h
    · rename_i hword
      cases h
      exact .int (by omega) (by omega)
    · split at h
      · rename_i hnegated
        cases h
        exact .int (by omega) (by omega)
      · obtain ⟨x, -, hx⟩ := Option.map_eq_some_iff.1 h
        cases hx

mutual

/-- **The value of a tree is plain**, if it holds no floating-point number. -/
theorem plain_of_value? : {t : Tree} → {j : Json} → {depth : Nat} → t.value? = some j → j.Exact →
    t.height ≤ depth → Plain depth j
  | .null, _, _, h, _, _ => by
    cases h
    exact .null
  | .bool b, _, _, h, _, _ => by
    cases h
    exact .bool b
  | .number l, _, _, h, hexact, _ => by
    obtain ⟨x, hx, rfl⟩ := Option.map_eq_some_iff.1 h
    exact plain_of_number hx hexact
  | .string text, _, _, h, _, _ => by
    obtain ⟨s, -, rfl⟩ := Option.map_eq_some_iff.1 h
    exact .str s
  | .array items, _, depth, h, hexact, hheight => by
    obtain ⟨js, hjs, rfl⟩ := Option.map_eq_some_iff.1 h
    cases hexact with
    | arr hexact =>
      cases depth with
      | zero => cases hheight
      | succ depth =>
        exact .arr fun j hj =>
          plain_of_values? hjs (Nat.le_of_succ_le_succ hheight) j hj (hexact j hj)
  | .object fields, _, depth, h, hexact, hheight => by
    obtain ⟨fs, hfs, rfl⟩ := Option.map_eq_some_iff.1 h
    cases hexact with
    | obj hexact =>
      cases depth with
      | zero => cases hheight
      | succ depth =>
        refine .obj (fun f hf => ?_) (pairwise_sortFields fs)
        exact plain_of_fieldValues? hfs (Nat.le_of_succ_le_succ hheight) f
          (mem_of_mem_sortFields hf) (hexact f hf)

theorem plain_of_values? : {items : List Tree} → {js : List Json} → {depth : Nat} →
    values? items = some js → heightItems items ≤ depth → ∀ j ∈ js, j.Exact → Plain depth j
  | [], _, _, h, _ => by
    cases h
    exact nofun
  | t :: items, _, _, h, hheight => by
    obtain ⟨ht, hitems⟩ := Nat.max_le.1 hheight
    rw [values?] at h
    split at h
    · rename_i j js hj hjs
      cases h
      exact List.forall_mem_cons.2 ⟨fun hexact => plain_of_value? hj hexact ht,
        plain_of_values? hjs hitems⟩
    · cases h

theorem plain_of_fieldValues? : {fields : List (Option String × Tree)} →
    {fs : List (String × Json)} → {depth : Nat} → fieldValues? fields = some fs →
    heightFields fields ≤ depth → ∀ f ∈ fs, f.2.Exact → Plain depth f.2
  | [], _, _, h, _ => by
    cases h
    exact nofun
  | (name, t) :: fields, _, _, h, hheight => by
    obtain ⟨ht, hfields⟩ := Nat.max_le.1 hheight
    unfold fieldValues? at h
    split at h
    · rename_i k j fs hj hfs
      cases h
      exact List.forall_mem_cons.2 ⟨fun hexact => plain_of_value? hj hexact ht,
        plain_of_fieldValues? hfs hfields⟩
    · cases h

end

/-- **What is read of a text is plain**, if it holds no floating-point number. -/
theorem plain_of_read? {text : String} (h : read? text = some j) (hexact : j.Exact) :
    Plain maxNesting j := by
  rw [read?] at h
  split at h
  · rename_i t ht
    split at h
    · rename_i hheight
      exact plain_of_value? h hexact hheight
    · cases h
  · cases h

/-- The fields of an object that was read are in order. -/
theorem pairwise_of_read? {text : String} (h : read? text = some (.obj fields)) :
    fields.Pairwise fun f g => f.1 < g.1 := by
  rw [read?] at h
  split at h
  · rename_i t ht
    split at h
    · cases t with
      | object trees =>
        obtain ⟨fs, -, hfs⟩ := Option.map_eq_some_iff.1 h
        cases hfs
        exact pairwise_sortFields fs
      | number l =>
        obtain ⟨x, -, hx⟩ := Option.map_eq_some_iff.1 h
        cases x <;> cases hx
      | string | array =>
        obtain ⟨_, -, hx⟩ := Option.map_eq_some_iff.1 h
        cases hx
      | _ => cases h
    · cases h
  · cases h

/-! ## How deep a value nests -/

theorem height_le_of_mem_trees {items : List Json} (hj : j ∈ items) :
    j.tree.height ≤ heightItems (trees items) := by
  induction items with
  | nil => cases hj
  | cons k items ih =>
    rw [trees, heightItems]
    rcases List.mem_cons.1 hj with rfl | hj
    · exact Nat.le_max_left _ _
    · exact Nat.le_trans (ih hj) (Nat.le_max_right _ _)

theorem height_le_of_mem_fieldTrees {f : String × Json} (hf : f ∈ fields) :
    f.2.tree.height ≤ heightFields (fieldTrees fields) := by
  induction fields with
  | nil => cases hf
  | cons g fields ih =>
    rw [fieldTrees, heightFields]
    rcases List.mem_cons.1 hf with rfl | hf
    · exact Nat.le_max_left _ _
    · exact Nat.le_trans (ih hf) (Nat.le_max_right _ _)

/-- A plain value is plain to the depth to which its tree nests. -/
theorem Plain.of_height_le {n : Nat} (h : Plain n j) (hheight : j.tree.height ≤ depth) :
    Plain depth j := by
  induction h generalizing depth with
  | null => exact .null
  | bool b => exact .bool b
  | int hmin hmax => exact .int hmin hmax
  | str s => exact .str s
  | @arr _ items _ ih =>
    cases depth with
    | zero => cases hheight
    | succ depth =>
      exact .arr fun k hk => ih k hk
        (Nat.le_trans (height_le_of_mem_trees hk) (Nat.le_of_succ_le_succ hheight))
  | @obj _ fields _ hsorted ih =>
    cases depth with
    | zero => cases hheight
    | succ depth =>
      exact .obj (fun f hf => ih f hf
        (Nat.le_trans (height_le_of_mem_fieldTrees hf) (Nat.le_of_succ_le_succ hheight))) hsorted

end Parley.Json
