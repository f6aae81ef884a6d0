import Parley.Proofs.Json.Reading

/-!
# Written records are read back

A record is written as an object with each of its fields once.  Read with the names of these
fields, it has just them (`record?_obj`), and after its tag the content of a tagged value is the
rest of its object (`tagged_obj`).
-/

namespace Parley.Json

variable {names : List String} {fields : List (String × Json)} {a b : Access}

/-- The fields of a written object, as a record finds them. -/
def foundTrees (fields : List (String × Json)) : List (String × Tree) :=
  fields.map fun f => (f.1, f.2.tree)

theorem lookup_foundTrees (fields : List (String × Json)) (name : String) :
    (foundTrees fields).lookup name = (lookup name fields).map tree := by
  induction fields with
  | nil => rfl
  | cons f fields ih =>
    rw [foundTrees, List.map_cons, List.lookup_cons, lookup]
    by_cases h : f.1 = name
    · rw [if_pos h, h, beq_self_eq_true]
      rfl
    · have hne : (name == f.1) = false := beq_eq_false_iff_ne.2 (Ne.symm h)
      rw [if_neg h, hne]
      exact ih

/-- Of all fields a record keeps the declared ones. -/
theorem declaredFields_filter (hnodup : (fields.map (·.1)).Nodup) :
    declaredFields names (fieldTrees fields) =
      some (foundTrees (fields.filter fun f => names.contains f.1)) := by
  induction fields with
  | nil => rfl
  | cons f fields ih =>
    rw [List.map_cons, List.nodup_cons] at hnodup
    rw [fieldTrees, declaredFields, ih hnodup.2, List.filter_cons]
    dsimp only
    split
    · have hfresh : (foundTrees (fields.filter fun f => names.contains f.1)).any (·.1 == f.1) =
          false := by
        rw [List.any_eq_false]
        intro g hg heq
        obtain ⟨h, hh, rfl⟩ := List.mem_map.1 hg
        exact hnodup.1 (List.mem_map.2 ⟨h, (List.mem_filter.1 hh).1, beq_iff_eq.1 heq⟩)
      rw [hfresh, if_neg Bool.false_ne_true]
      rfl
    · rfl

theorem declaredFields_fieldTrees (hdeclared : ∀ f ∈ fields, f.1 ∈ names)
    (hnodup : (fields.map (·.1)).Nodup) :
    declaredFields names (fieldTrees fields) = some (foundTrees fields) := by
  rw [declaredFields_filter hnodup,
    List.filter_eq_self.2 fun f hf => List.contains_iff_mem.2 (hdeclared f hf)]

/-- **A written record has its fields.** -/
theorem record?_obj (ha : a.enter = some b) (hdeclared : ∀ f ∈ fields, f.1 ∈ names)
    (hnodup : (fields.map (·.1)).Nodup) :
    record? names a (tree (.obj fields)) = some ⟨foundTrees fields, false, b⟩ := by
  rw [tree, record?, ha, declaredFields_fieldTrees hdeclared hnodup]
  rfl

variable {α : Type} {d : Decoder α}

/-- A field that must be there is read from the value of that name. -/
theorem required_found (name : String) :
    (⟨foundTrees fields, false, a⟩ : Record).required name d =
      (lookup name fields).bind fun j => d a j.tree := by
  rw [Record.required, lookup_foundTrees]
  cases lookup name fields <;> rfl

/-- A field with a default is read from the value of that name, if there is one. -/
theorem orElse_found (name : String) (fallback : α) :
    (⟨foundTrees fields, false, a⟩ : Record).orElse name fallback d =
      (lookup name fields).elim (some fallback) fun j => d a j.tree := by
  rw [Record.orElse, lookup_foundTrees]
  cases lookup name fields <;> rfl

/-- The fields of one name, and those of others, among the trees of written fields. -/
theorem partition_trees (key : String) (written : List (String × Json)) :
    (fieldTrees written).partition (·.1 == some key) =
      (fieldTrees (written.filter (·.1 == key)), fieldTrees (written.filter (!·.1 == key))) := by
  have hname : ∀ f : String × Json, (some f.1 == some key) = (f.1 == key) := fun f => by simp
  simp only [List.partition_eq_filter_filter, fieldTrees_eq_map, List.filter_map,
    Function.comp_def, hname]

/-- Fields of other names are all on the other side. -/
theorem filter_of_ne {key : String} (h : ∀ f ∈ fields, f.1 ≠ key) :
    fields.filter (·.1 == key) = [] ∧ fields.filter (!·.1 == key) = fields :=
  ⟨List.filter_eq_nil_iff.2 fun f hf => by simpa using h f hf,
    List.filter_eq_self.2 fun f hf => by simpa using h f hf⟩

/-- An object with one tag is taken apart into that and the other fields. -/
theorem partition_fieldTrees {key : String} {j : Json} (h : ∀ f ∈ fields, f.1 ≠ key) :
    (fieldTrees ((key, j) :: fields)).partition (·.1 == some key) =
      ([(some key, j.tree)], fieldTrees fields) := by
  obtain ⟨htags, hothers⟩ := filter_of_ne h
  rw [partition_trees, List.filter_cons_of_pos (by simp), List.filter_cons_of_neg (by simp), htags,
    hothers]
  rfl

/-- **A written value with a tag is read as the alternative of that name**, if all else that it
holds may stand there. -/
theorem tagged_obj {key tag : String} {alternatives : List (String × Decoder α)}
    (ha : a.enter = some b) (hkey : ∀ f ∈ fields, f.1 ≠ key)
    (hadmits : ∀ f ∈ fields, b.admits f.2.tree) (htag : alternatives.lookup tag = some d) :
    Decoder.tagged key alternatives a (tree (.obj ((key, .str tag) :: fields))) =
      d .buffered (tree (.obj fields)) := by
  have hall : (fieldTrees fields).all (fun f => f.1.isSome && b.admits f.2) = true := by
    rw [fieldTrees_eq_map, List.all_map, List.all_eq_true]
    intro f hf
    exact hadmits f hf
  have huntag : untag? key b (tree (.obj ((key, .str tag) :: fields))) =
      some (.string (some tag), tree (.obj fields)) := by
    rw [tree, untag?, partition_fieldTrees hkey]
    dsimp only
    rw [hall, if_pos rfl]
    rfl
  rw [Decoder.tagged, ha]
  simp only [Option.bind_eq_bind, Option.bind_some, huntag, alternative?, htag]

/-- A written value with a tag is not read at all, if it holds something that may not stand
there. -/
theorem tagged_eq_none {key tag : String} {alternatives : List (String × Decoder α)}
    (ha : a.enter = some b) (hkey : ∀ f ∈ fields, f.1 ≠ key) {f : String × Json} (hf : f ∈ fields)
    (hadmits : b.admits f.2.tree = false) :
    Decoder.tagged key alternatives a (tree (.obj ((key, .str tag) :: fields))) = none := by
  have hall : (fieldTrees fields).all (fun f => f.1.isSome && b.admits f.2) = false := by
    rw [fieldTrees_eq_map, List.all_map, List.all_eq_false]
    refine ⟨f, hf, ?_⟩
    simp [hadmits]
  have huntag : untag? key b (tree (.obj ((key, .str tag) :: fields))) = none := by
    rw [tree, untag?, partition_fieldTrees hkey]
    dsimp only
    rw [hall, if_neg Bool.false_ne_true]
  rw [Decoder.tagged, ha]
  simp only [Option.bind_eq_bind, Option.bind_some, huntag, Option.bind_none]

/-! ## Texts -/

theorem decode_str (a : Access) (s : String) : Decoder.text a (tree (.str s)) = some s := rfl

theorem decode_orNull (a : Access) (s : String) :
    Decoder.text.orNull a (tree (.str s)) = some (some s) := rfl

theorem decode_oneOf {α : Type} (names : List (String × α)) (a : Access) (s : String) :
    Decoder.oneOf names a (tree (.str s)) = names.lookup s := rfl

/-- A text may stand anywhere. -/
theorem admits_str (a : Access) (s : String) : a.admits (tree (.str s)) := by
  cases a with
  | streamed depth =>
    rw [Access.admits, Bool.and_eq_true, decide_eq_true_eq]
    exact ⟨Nat.zero_le depth, rfl⟩
  | buffered => rfl

/-- What a reader finds in the compact form is what it finds in the tree. -/
theorem readText_compact {j : Json} (h : j.Exact) (d : Decoder α) :
    d.readText j.compact = d (.streamed maxNesting) j.tree := by
  rw [Decoder.readText, read?_compact h]
  rfl

/-- So it is in the pretty form. -/
theorem readText_pretty {j : Json} (h : j.Exact) (d : Decoder α) :
    d.readText j.pretty = d (.streamed maxNesting) j.tree := by
  rw [Decoder.readText, read?_pretty h]
  rfl

end Parley.Json
