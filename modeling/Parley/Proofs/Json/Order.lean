import Mathlib.Data.List.Nodup
import Parley.Proofs.Json.Records

/-!
# Fields in any order

Who writes an object may put its fields in any order, and may write more of them than a reader
asks for.  What a record finds does not depend on either: it is read from the fields by their
names (`bind_record`), and a tag is found wherever it stands (`taggedOr_of_perm`).

`FieldOrder` is a writer's choice of orders, one for every list of fields.
-/

namespace Parley.Json

variable {names : List String} {fields written : List (String × Json)} {a b : Access}

/-- An order to write the fields of objects in. -/
structure FieldOrder where
  arrange : List (String × Json) → List (String × Json)
  perm (fields : List (String × Json)) : (arrange fields).Perm fields

/-- The object with some fields, written in an order. -/
def FieldOrder.object (o : FieldOrder) (fields : List (String × Json)) : Json :=
  .obj (o.arrange fields)

@[simp] theorem exact_str (s : String) : (str s).Exact := .str s

@[simp] theorem exact_ofNat (n : Nat) : (ofNat n).Exact := .int n

@[simp] theorem FieldOrder.exact_object (o : FieldOrder) (h : ∀ f ∈ fields, f.2.Exact) :
    (o.object fields).Exact :=
  .obj fun f hf => h f ((o.perm fields).mem_iff.1 hf)

/-! ## Looking up by name -/

theorem lookup_eq_some_iff (hnodup : (fields.map (·.1)).Nodup) {name : String} {j : Json} :
    lookup name fields = some j ↔ (name, j) ∈ fields := by
  induction fields with
  | nil => simp [lookup]
  | cons f fields ih =>
    obtain ⟨k, v⟩ := f
    rw [List.map_cons, List.nodup_cons] at hnodup
    rw [lookup, List.mem_cons, Prod.mk.injEq]
    by_cases h : k = name
    · have hfresh : (name, j) ∉ fields := fun hmem =>
        hnodup.1 (List.mem_map.2 ⟨(name, j), hmem, h.symm⟩)
      simp [h, hfresh, eq_comm]
    · simp [h, Ne.symm h, ih hnodup.2]

theorem lookup_of_perm (hperm : written.Perm fields) (hnodup : (fields.map (·.1)).Nodup)
    (name : String) : lookup name written = lookup name fields := by
  have hnodup' : (written.map (·.1)).Nodup := (hperm.map _).nodup_iff.2 hnodup
  ext j
  rw [lookup_eq_some_iff hnodup', lookup_eq_some_iff hnodup, hperm.mem_iff]

theorem lookup_filter {p : String → Bool} {name : String} (h : p name = true) :
    lookup name (fields.filter fun f => p f.1) = lookup name fields := by
  induction fields with
  | nil => rfl
  | cons f fields ih =>
    rw [List.filter_cons]
    by_cases hf : f.1 = name
    · simp [lookup, hf, h]
    · split
      · simp [lookup, hf, ih]
      · simp [lookup, hf, ih]

/-! ## Records -/

/-- A record that holds the fields with the declared names. -/
structure Record.Holds (r : Record) (names : List String) (fields : List (String × Json))
    (a : Access) : Prop where
  positional : r.positional = false
  access : r.access = a
  found : ∀ name ∈ names, r.found.lookup name = (Json.lookup name fields).map tree

/-- **A record is found in an object, in whatever order its fields are written.** -/
theorem exists_record (names : List String) (ha : a.enter = some b) (hperm : written.Perm fields)
    (hnodup : (fields.map (·.1)).Nodup) :
    ∃ r, record? names a (tree (.obj written)) = some r ∧ r.Holds names fields b := by
  have hnodup' : (written.map (·.1)).Nodup := (hperm.map _).nodup_iff.2 hnodup
  refine ⟨⟨foundTrees (written.filter fun f => names.contains f.1), false, b⟩, ?_, rfl, rfl, ?_⟩
  · rw [tree, record?, ha, Option.bind_eq_bind, Option.bind_some, declaredFields_filter hnodup']
    rfl
  · intro name hname
    rw [lookup_foundTrees, lookup_filter (List.contains_iff_mem.2 hname),
      lookup_of_perm hperm hnodup]

/-- What is read of the record of an object is what is read of its fields. -/
theorem bind_record {α : Type} (hperm : written.Perm fields) (ha : a.enter = some b)
    (hnodup : (fields.map (·.1)).Nodup) {read : Record → Option α} {v : Option α}
    (h : ∀ r : Record, r.Holds names fields b → read r = v) :
    (record? names a (tree (.obj written)) >>= read) = v := by
  obtain ⟨r, hr, hholds⟩ := exists_record names ha hperm hnodup
  rw [hr]
  exact h r hholds

namespace Record.Holds

variable {α : Type} {r : Record} {d : Decoder α} {name : String} {j : Json}

theorem required (h : r.Holds names fields a) (hname : name ∈ names)
    (hfield : lookup name fields = some j) : r.required name d = d a j.tree := by
  rw [Record.required, h.found name hname, hfield, h.access]
  rfl

theorem optional (h : r.Holds names fields a) (hname : name ∈ names)
    (hfield : lookup name fields = some j) : r.optional name d = d.orNull a j.tree := by
  rw [Record.optional, h.found name hname, hfield, h.access]
  rfl

theorem orElse {fallback : α} (h : r.Holds names fields a) (hname : name ∈ names)
    (hfield : lookup name fields = some j) : r.orElse name fallback d = d a j.tree := by
  rw [Record.orElse, h.found name hname, hfield, h.access]
  rfl

theorem orElse_absent {fallback : α} (h : r.Holds names fields a) (hname : name ∈ names)
    (hfield : lookup name fields = none) : r.orElse name fallback d = some fallback := by
  rw [Record.orElse, h.found name hname, hfield]
  rfl

end Record.Holds

/-! ## Tags -/

/-- A tag is taken out of a written object, wherever it stands. -/
theorem exists_untag {key tag : String} (hperm : written.Perm ((key, .str tag) :: fields))
    (hkey : ∀ f ∈ fields, f.1 ≠ key) (hadmits : ∀ f ∈ fields, a.admits f.2.tree) :
    ∃ content, content.Perm fields ∧
      untag? key a (tree (.obj written)) =
        some (.string (some tag), tree (.obj content)) := by
  obtain ⟨hnone, hall⟩ := filter_of_ne hkey
  have htags : written.filter (·.1 == key) = [(key, .str tag)] := by
    have h := hperm.filter fun f => f.1 == key
    rw [List.filter_cons_of_pos (by simp), hnone] at h
    exact List.perm_singleton.1 h
  have hothers : (written.filter (!·.1 == key)).Perm fields := by
    have h := hperm.filter fun f => !f.1 == key
    rwa [List.filter_cons_of_neg (by simp), hall] at h
  have hcontent : (fieldTrees (written.filter (!·.1 == key))).all
      (fun f => f.1.isSome && a.admits f.2) = true := by
    rw [fieldTrees_eq_map, List.all_map, List.all_eq_true]
    intro f hf
    exact hadmits f (hothers.mem_iff.1 hf)
  refine ⟨_, hothers, ?_⟩
  rw [tree, untag?, partition_trees, htags]
  dsimp only [fieldTrees]
  rw [hcontent, if_pos rfl]
  rfl

/-- **A value with a tag is read as the alternative of that name**, wherever the tag stands. -/
theorem taggedOr_of_perm {α : Type} {key tag : String} {alternatives : List (String × Decoder α)}
    {d : Decoder α} {rest : α} {v : Option α} (hperm : written.Perm ((key, .str tag) :: fields))
    (ha : a.enter = some b) (hkey : ∀ f ∈ fields, f.1 ≠ key)
    (hadmits : ∀ f ∈ fields, b.admits f.2.tree) (htag : alternatives.lookup tag = some d)
    (h : ∀ content : List (String × Json), content.Perm fields →
      d .buffered (tree (.obj content)) = v) :
    Decoder.taggedOr key alternatives rest a (tree (.obj written)) = v := by
  obtain ⟨content, hcontent, huntag⟩ := exists_untag hperm hkey hadmits
  rw [Decoder.taggedOr, ha]
  simp only [Option.bind_eq_bind, Option.bind_some, huntag, htag]
  exact h content hcontent

end Parley.Json
