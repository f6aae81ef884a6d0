import Mathlib.Data.List.Induction
import Mathlib.Data.List.Nodup
import Parley.Tool.Registry

/-!
# What a registry holds

A registry is filled by registering tools, which is refused when the name is taken, and by
replacing them.  Whatever the order of these calls, the tool that stands under a name in the end
is the one that was put there last by replacing, or the one that was registered first if none was
(`get?_history`).  The names are in strict order (`sorted_history`), and a name is there just when
some call brought it (`mem_names_history_iff`).
-/

namespace Parley.Registry

variable {t u : Tool} {tools : List Tool} {r : Registry} {name : String}

/-! ## Putting a tool in its place -/

theorem find?_cons_name (t : Tool) (tools : List Tool) (name : String) :
    (t :: tools).find? (·.name = name) =
      if t.name = name then some t else tools.find? (·.name = name) := by
  by_cases h : t.name = name
  · rw [if_pos h, List.find?_cons_of_pos (by simpa using h)]
  · rw [if_neg h, List.find?_cons_of_neg (by simpa using h)]

/-- A tool in its place is found under its name, and changes no other name. -/
theorem find?_place (t : Tool) (tools : List Tool) (name : String) :
    (place t tools).find? (·.name = name) =
      if t.name = name then some t else tools.find? (·.name = name) := by
  induction tools with
  | nil => rw [place, find?_cons_name]
  | cons u tools ih =>
    rw [place]
    by_cases hsame : t.name = u.name
    · rw [if_pos hsame, find?_cons_name, find?_cons_name, hsame]
      split <;> rfl
    · by_cases hless : t.name < u.name
      · rw [if_neg hsame, if_pos hless, find?_cons_name]
      · rw [if_neg hsame, if_neg hless, find?_cons_name, ih, find?_cons_name]
        by_cases hname : t.name = name
        · rw [if_pos hname, if_pos hname, if_neg fun hu => hsame (hname.trans hu.symm)]
        · rw [if_neg hname, if_neg hname]

/-- The tools stand in the strict order of their names. -/
def Sorted (r : Registry) : Prop := r.tools.Pairwise (·.name < ·.name)

theorem mem_of_mem_place (h : u ∈ place t tools) : u = t ∨ u ∈ tools := by
  induction tools with
  | nil => exact .inl (List.mem_singleton.1 h)
  | cons v tools ih =>
    rw [place] at h
    split at h
    · exact (List.mem_cons.1 h).imp_right (List.mem_cons_of_mem v)
    · split at h
      · exact List.mem_cons.1 h
      · rcases List.mem_cons.1 h with rfl | h
        · exact .inr List.mem_cons_self
        · exact (ih h).imp_right (List.mem_cons_of_mem v)

theorem pairwise_place (t : Tool) (h : tools.Pairwise (·.name < ·.name)) :
    (place t tools).Pairwise (·.name < ·.name) := by
  induction tools with
  | nil => exact List.pairwise_singleton _ _
  | cons u tools ih =>
    obtain ⟨hu, htools⟩ := List.pairwise_cons.1 h
    rw [place]
    by_cases hsame : t.name = u.name
    · rw [if_pos hsame]
      exact List.pairwise_cons.2 ⟨fun v hv => hsame ▸ hu v hv, htools⟩
    · by_cases hless : t.name < u.name
      · rw [if_neg hsame, if_pos hless]
        refine List.pairwise_cons.2 ⟨List.forall_mem_cons.2 ⟨hless, fun v hv => ?_⟩, h⟩
        exact String.lt_trans hless (hu v hv)
      · have hgreater : u.name < t.name :=
          Std.lt_of_le_of_ne (String.not_lt.1 hless) (Ne.symm hsame)
        rw [if_neg hsame, if_neg hless]
        refine List.pairwise_cons.2 ⟨fun v hv => ?_, ih htools⟩
        rcases mem_of_mem_place hv with rfl | hv
        · exact hgreater
        · exact hu v hv

theorem Sorted.pairwise_names (h : r.Sorted) : r.names.Pairwise (· < ·) :=
  List.pairwise_map.2 h

theorem get?_eq_some (h : r.get? name = some t) : t ∈ r.tools ∧ t.name = name :=
  ⟨List.mem_of_find?_eq_some h, by simpa using List.find?_some h⟩

/-- In a sorted registry every tool is found under its name. -/
theorem Sorted.get?_name (h : r.Sorted) (ht : t ∈ r.tools) : r.get? t.name = some t := by
  cases hget : r.get? t.name with
  | none =>
    have hnone := List.find?_eq_none.1 hget t ht
    simp at hnone
  | some u =>
    obtain ⟨hu, hname⟩ := get?_eq_some hget
    have hnodup : r.names.Nodup := h.pairwise_names.imp fun hless => Std.ne_of_lt hless
    rw [List.inj_on_of_nodup_map hnodup hu ht hname]

/-! ## Calls that fill a registry -/

/-- A call that puts a tool into a registry. -/
inductive Filling where
  | register (t : Tool)
  | replace (t : Tool)

namespace Filling

/-- The tool that a call brings. -/
def tool : Filling → Tool
  | register t => t
  | replace t => t

/-- The tool that a call puts in place of whatever stands there. -/
def replaced? : Filling → Option Tool
  | register _ => none
  | replace t => some t

/-- What a call answers, the tool that stood there before or an error, and the registry after it. -/
def perform (r : Registry) : Filling → Except Error (Option Tool) × Registry
  | register t =>
    match r.register t with
    | .ok r' => (.ok none, r')
    | .error e => (.error e, r)
  | replace t => (.ok (r.replace t).1, (r.replace t).2)

end Filling

/-- The registry after some calls, from an empty one on. -/
def history (calls : List Filling) : Registry :=
  calls.foldl (fun r c => (c.perform r).2) {}

/-- The tool that stands under a name after some calls: the last one that replaced, or else the
first one that was registered. -/
def standing? (calls : List Filling) (name : String) : Option Tool :=
  let named := calls.filter (·.tool.name = name)
  (named.filterMap Filling.replaced?).getLast?.or (named.head?.map Filling.tool)

variable {calls : List Filling} {c : Filling}

theorem history_concat (calls : List Filling) (c : Filling) :
    history (calls ++ [c]) = (c.perform (history calls)).2 := by
  rw [history, List.foldl_append]
  rfl

/-- A call changes nothing, or puts its tool in its place. -/
theorem perform_cases (r : Registry) (c : Filling) :
    (∃ t, c = .register t ∧ r.contains t.name ∧
        c.perform r = (.error (.duplicateName t.name), r)) ∨
      ((∀ t, c = .register t → r.contains t.name = false) ∧
        (∃ before, (c.perform r).1 = .ok before) ∧
        (c.perform r).2 = ⟨place c.tool r.tools⟩) := by
  cases c with
  | register t =>
    rw [Filling.perform, register]
    cases hcontains : r.contains t.name with
    | true => exact .inl ⟨t, rfl, hcontains, rfl⟩
    | false =>
      refine .inr ⟨?_, ⟨none, rfl⟩, rfl⟩
      rintro u ⟨⟩
      exact hcontains
  | replace t => exact .inr ⟨nofun, ⟨_, rfl⟩, rfl⟩

theorem sorted_perform (h : r.Sorted) (c : Filling) : (c.perform r).2.Sorted := by
  rcases perform_cases r c with ⟨t, -, -, hsame⟩ | ⟨-, -, hplaced⟩
  · rw [hsame]
    exact h
  · rw [hplaced]
    exact pairwise_place _ h

/-- **The names are in strict order**, whatever was registered and replaced. -/
theorem sorted_history (calls : List Filling) : (history calls).Sorted := by
  induction calls using List.reverseRecOn with
  | nil => exact List.Pairwise.nil
  | append_singleton calls c ih =>
    rw [history_concat]
    exact sorted_perform ih c

theorem standing?_concat (calls : List Filling) (c : Filling) (name : String) :
    standing? (calls ++ [c]) name =
      if c.tool.name = name then c.replaced?.or ((standing? calls name).or (some c.tool))
      else standing? calls name := by
  rw [standing?, standing?, List.filter_append, List.filter_singleton]
  by_cases hname : c.tool.name = name
  · rw [if_pos hname, decide_eq_true hname, Bool.cond_true, List.filterMap_append,
      List.getLast?_append, List.head?_append]
    cases c with
    | register t => cases (calls.filter (·.tool.name = name)).head? <;> simp [Filling.replaced?]
    | replace t => rfl
  · rw [if_neg hname, decide_eq_false hname, Bool.cond_false, List.append_nil]

/-- **The tool that stands under a name** is the last one that replaced, or else the first one that
was registered. -/
theorem get?_history (calls : List Filling) (name : String) :
    (history calls).get? name = standing? calls name := by
  induction calls using List.reverseRecOn with
  | nil => rfl
  | append_singleton calls c ih =>
    rw [history_concat, standing?_concat, ← ih]
    rcases perform_cases (history calls) c with ⟨t, rfl, htaken, hsame⟩ | ⟨hvacant, -, hplaced⟩
    · -- refused: the tool that stands there stays
      rw [hsame]
      split_ifs with hname
      · obtain ⟨u, hu⟩ := Option.isSome_iff_exists.1 htaken
        rw [← hname, Filling.tool, hu]
        rfl
      · rfl
    · rw [hplaced, get?, find?_place]
      split_ifs with hname
      · cases c with
        | register t =>
          have hnone : (history calls).get? name = none := by
            rw [← hname]
            exact Option.not_isSome_iff_eq_none.1 (Bool.eq_false_iff.1 (hvacant t rfl))
          rw [hnone]
          rfl
        | replace t => rfl
      · rfl

/-- Some tool stands under a name just when some call brought one. -/
theorem standing?_eq_none_iff : standing? calls name = none ↔ ∀ c ∈ calls, c.tool.name ≠ name := by
  induction calls using List.reverseRecOn with
  | nil => exact iff_of_true rfl nofun
  | append_singleton calls c ih =>
    rw [standing?_concat, List.forall_mem_append, List.forall_mem_singleton]
    split_ifs with hname
    · simp [hname]
    · rw [ih]
      exact (and_iff_left hname).symm

/-- A name is taken just when some call brought it. -/
theorem contains_history_iff : (history calls).contains name ↔ ∃ c ∈ calls, c.tool.name = name := by
  rw [contains, get?_history, Option.isSome_iff_ne_none, Ne, standing?_eq_none_iff]
  simp only [not_forall, not_not, exists_prop]

theorem mem_names_history_iff :
    name ∈ (history calls).names ↔ ∃ c ∈ calls, c.tool.name = name := by
  rw [← contains_history_iff, contains, Option.isSome_iff_exists, names, List.mem_map]
  constructor
  · rintro ⟨t, ht, rfl⟩
    exact ⟨t, (sorted_history calls).get?_name ht⟩
  · rintro ⟨t, ht⟩
    exact ⟨t, get?_eq_some ht⟩

/-- The model is told about the tools that stand under the names. -/
theorem mem_definitions_history_iff {d : Model.ToolDefinition} :
    d ∈ (history calls).definitions ↔ ∃ t, standing? calls t.name = some t ∧ d = t.definition := by
  rw [definitions, List.mem_map]
  constructor
  · rintro ⟨t, ht, rfl⟩
    exact ⟨t, by rw [← get?_history, (sorted_history calls).get?_name ht], rfl⟩
  · rintro ⟨t, ht, rfl⟩
    rw [← get?_history] at ht
    exact ⟨t, (get?_eq_some ht).1, rfl⟩

/-- **Registering is refused just when the name is taken**, and then changes nothing. -/
theorem perform_register_iff {e : Error} {r' : Registry} :
    (Filling.register t).perform (history calls) = (.error e, r') ↔
      (∃ c ∈ calls, c.tool.name = t.name) ∧ e = .duplicateName t.name ∧ r' = history calls := by
  rw [← contains_history_iff]
  rcases perform_cases (history calls) (.register t) with
    ⟨u, heq, htaken, hsame⟩ | ⟨hvacant, ⟨before, hdone⟩, -⟩
  · cases heq
    rw [hsame, Prod.mk.injEq, Except.error.injEq]
    exact ⟨fun h => ⟨htaken, h.1.symm, h.2.symm⟩, fun h => ⟨h.2.1.symm, h.2.2.symm⟩⟩
  · constructor
    · intro h
      rw [h] at hdone
      cases hdone
    · intro h
      rw [hvacant t rfl] at h
      cases h.1

end Parley.Registry
