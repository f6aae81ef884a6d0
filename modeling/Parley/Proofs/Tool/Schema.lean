import Parley.Proofs.Json.Accepted
import Parley.Proofs.Json.Order
import Parley.Tool.Schema

/-!
# What the check of arguments decides

`Admits` says what a schema asks of arguments, field by field and without an order.  The check
finds no violation just when the schema admits the arguments.  When it finds one, the field that it
names is the one to blame (`Blames`): the first of the required fields that are missing, in the
order of the schema, or, if none is, the least of the fields whose values do not fit
(`violation?_decides`).

Each function of the check has a lemma for when it finds nothing, and the two that choose between
fields have one for what they find.  The fields of the arguments have to be in order, as those of
an object that was read are (`pairwise_of_read?`); those of the schema need not be.

A value is one of those that a field is restricted to if it is the same as one of them.  That is
equality, except that floating-point numbers are compared as numbers (`same_iff`).
-/

namespace Parley

namespace Json

/-! ## Looking inside values -/

variable {j : Json}

theorem str?_eq_some {t : String} : j.str? = some t ↔ j = .str t := by
  cases j <;> simp [str?]

theorem arr?_eq_some {items : List Json} : j.arr? = some items ↔ j = .arr items := by
  cases j <;> simp [arr?]

theorem obj?_eq_some {fields : List (String × Json)} : j.obj? = some fields ↔ j = .obj fields := by
  cases j <;> simp [obj?]

theorem isNull_iff : j.isNull = true ↔ j = .null := by
  cases j <;> simp [isNull]

/-! ## Values that are the same -/

theorem sameItems_iff {items : List Json}
    (h : ∀ k ∈ items, ∀ j : Json, j.same k = true ↔ j = k) (others : List Json) :
    sameItems others items = true ↔ others = items := by
  induction items generalizing others with
  | nil => cases others <;> simp [sameItems]
  | cons k items ih =>
    obtain ⟨hk, hitems⟩ := List.forall_mem_cons.1 h
    cases others with
    | nil => simp [sameItems]
    | cons j others => simp [sameItems, hk, ih hitems]

theorem sameFields_iff {fields : List (String × Json)}
    (h : ∀ f ∈ fields, ∀ j : Json, j.same f.2 = true ↔ j = f.2) (others : List (String × Json)) :
    sameFields others fields = true ↔ others = fields := by
  induction fields generalizing others with
  | nil => cases others <;> simp [sameFields]
  | cons f fields ih =>
    obtain ⟨hf, hfields⟩ := List.forall_mem_cons.1 h
    cases others with
    | nil => simp [sameFields]
    | cons g others => simp [sameFields, hf, ih hfields, Prod.ext_iff, and_assoc]

/-- What is the same as a value without floating-point numbers is that value. -/
theorem same_iff {k : Json} (h : k.Exact) : j.same k = true ↔ j = k := by
  induction h generalizing j with
  | null => cases j <;> simp [same]
  | bool b => cases j <;> simp [same]
  | int i => cases j <;> simp [same]
  | str s => cases j <;> simp [same]
  | arr _ ih => cases j <;> simp [same, sameItems_iff fun k hk _ => ih k hk]
  | obj _ ih => cases j <;> simp [same, sameFields_iff fun f hf _ => ih f hf]

end Json

namespace Tool.Schema

open Json

variable {v property schema arguments : Json} {fields properties : List (String × Json)}
  {name type : String}

/-! ## What a schema asks for -/

/-- The values of a named type.  A name that is not listed here asks for nothing. -/
structure OfType (type : String) (v : Json) : Prop where
  string : type = "string" → ∃ s, v = .str s
  number : type = "number" → (∃ i, v = .int i) ∨ ∃ x, v = .float x
  integer : type = "integer" → ∃ i, v = .int i
  boolean : type = "boolean" → ∃ b, v = .bool b
  object : type = "object" → ∃ fields, v = .obj fields
  array : type = "array" → ∃ items, v = .arr items
  null : type = "null" → v = .null

/-- A value that is as a property of a schema says. -/
structure Fits (v property : Json) : Prop where
  type : ∀ t, property.get? "type" = some (.str t) → OfType t v
  choice : ∀ choices, property.get? "enum" = some (.arr choices) → ∃ c ∈ choices, c.same v
  items : ∀ items p t, v = .arr items → property.get? "items" = some p →
    p.get? "type" = some (.str t) → ∀ item ∈ items, OfType t item

/-- A field that is there and holds something. -/
def Present (fields : List (String × Json)) (name : String) : Prop :=
  ∃ v, lookup name fields = some v ∧ v ≠ .null

/-- A field that is required. -/
def Requires (schema : Json) (name : String) : Prop :=
  ∃ names, schema.get? "required" = some (.arr names) ∧ .str name ∈ names

/-- A field whose value is not as the schema says. -/
def Unfit (schema : Json) (fields : List (String × Json)) (name : String) : Prop :=
  ∃ v properties property, lookup name fields = some v ∧ v ≠ .null ∧
    schema.get? "properties" = some (.obj properties) ∧ lookup name properties = some property ∧
    ¬Fits v property

/-- Arguments that are as a schema says. -/
structure Admits (schema arguments : Json) : Prop where
  isObject : schema.get? "type" = some (.str "object") → ∃ fields, arguments = .obj fields
  present : ∀ fields, arguments = .obj fields → ∀ name, Requires schema name → Present fields name
  fits : ∀ fields, arguments = .obj fields → ∀ name, ¬Unfit schema fields name

/-- The field that is to blame when arguments are not as a schema says. -/
inductive Blames (schema arguments : Json) : Option String → Prop
  /-- The arguments are no object. -/
  | whole (htype : schema.get? "type" = some (.str "object"))
    (harguments : ∀ fields, arguments ≠ .obj fields) : Blames schema arguments none
  /-- The first required field that is missing. -/
  | missing {fields : List (String × Json)} {before after : List Json} {name : String}
    (harguments : arguments = .obj fields)
    (hrequired : schema.get? "required" = some (.arr (before ++ .str name :: after)))
    (hmissing : ¬Present fields name) (hbefore : ∀ n, .str n ∈ before → Present fields n) :
    Blames schema arguments (some name)
  /-- The least field that does not fit, when no required field is missing. -/
  | unfit {fields : List (String × Json)} {name : String} (harguments : arguments = .obj fields)
    (hpresent : ∀ n, Requires schema n → Present fields n) (hunfit : Unfit schema fields name)
    (hleast : ∀ n, Unfit schema fields n → name ≤ n) : Blames schema arguments (some name)

/-! ## One field -/

theorem hasType_iff : hasType v type = true ↔ OfType type v := by
  unfold hasType
  split
  case h_9 hstring hint hfloat hinteger hboolean hobject harray hnull =>
    rw [Bool.not_eq_true', List.contains_eq_mem, decide_eq_false_iff_not]
    constructor
    · intro hother
      constructor <;> rintro rfl <;> exact absurd (by simp) hother
    · intro h hmem
      simp only [List.mem_cons, List.not_mem_nil, or_false] at hmem
      rcases hmem with rfl | rfl | rfl | rfl | rfl | rfl | rfl
      · exact (h.string rfl).elim fun s => hstring s rfl
      · exact (h.number rfl).elim (fun ⟨i, hi⟩ => hint i rfl hi) fun ⟨x, hx⟩ => hfloat x rfl hx
      · exact (h.integer rfl).elim fun i => hinteger i rfl
      · exact (h.boolean rfl).elim fun b => hboolean b rfl
      · exact (h.object rfl).elim fun fields => hobject fields rfl
      · exact (h.array rfl).elim fun items => harray items rfl
      · exact hnull rfl (h.null rfl)
  all_goals exact iff_of_true rfl (by constructor <;> simp)

theorem textAt?_eq_some {t : String} :
    textAt? schema name = some t ↔ schema.get? name = some (.str t) := by
  simp [textAt?, Option.bind_eq_some_iff, str?_eq_some]

theorem bind_arr?_eq_some {items : List Json} :
    (schema.get? name).bind Json.arr? = some items ↔ schema.get? name = some (.arr items) := by
  simp [Option.bind_eq_some_iff, arr?_eq_some]

theorem bind_obj?_eq_some :
    (schema.get? name).bind Json.obj? = some fields ↔ schema.get? name = some (.obj fields) := by
  simp [Option.bind_eq_some_iff, obj?_eq_some]

theorem typeFault?_eq_none_iff : typeFault? name v property = none ↔
    ∀ t, property.get? "type" = some (.str t) → OfType t v := by
  simp only [typeFault?, Option.bind_eq_bind, Option.bind_eq_none_iff, textAt?_eq_some,
    ite_eq_left_iff, reduceCtorEq, imp_false, not_not, hasType_iff]

theorem choiceFault?_eq_none_iff : choiceFault? name v property = none ↔
    ∀ choices, property.get? "enum" = some (.arr choices) → ∃ c ∈ choices, c.same v := by
  simp only [choiceFault?, Option.bind_eq_bind, Option.bind_eq_none_iff, bind_arr?_eq_some,
    ite_eq_left_iff, reduceCtorEq, imp_false, not_not, List.any_eq_true]

theorem itemFault?_eq_none_iff : itemFault? name v property = none ↔
    ∀ items p t, v = .arr items → property.get? "items" = some p →
      p.get? "type" = some (.str t) → ∀ item ∈ items, OfType t item := by
  have hfind (items : List Json) (t : String) :
      (∀ bad, items.find? (fun item => !hasType item t) ≠ some bad) ↔
        ∀ item ∈ items, OfType t item := by
    rw [← Option.eq_none_iff_forall_ne_some, List.find?_eq_none]
    simp [hasType_iff]
  simp only [itemFault?, Option.bind_eq_bind, Option.bind_eq_none_iff, arr?_eq_some,
    Option.bind_eq_some_iff, textAt?_eq_some, reduceCtorEq, imp_false, hfind]
  exact ⟨fun h items p t hv hp ht => h items hv t ⟨p, hp, ht⟩,
    fun h items hv t ⟨p, hp, ht⟩ => h items p t hv hp ht⟩

theorem fieldFault?_eq_none_iff : fieldFault? name v property = none ↔ Fits v property := by
  rw [fieldFault?, Option.or_eq_none_iff, Option.or_eq_none_iff, typeFault?_eq_none_iff,
    choiceFault?_eq_none_iff, itemFault?_eq_none_iff]
  exact ⟨fun ⟨htype, hchoice, hitems⟩ => ⟨htype, hchoice, hitems⟩,
    fun h => ⟨h.type, h.choice, h.items⟩⟩

/-! ## All fields -/

theorem isAbsent_lookup_iff : isAbsent (lookup name fields) = true ↔ ¬Present fields name := by
  unfold Present
  cases hlookup : lookup name fields with
  | none => simp [isAbsent]
  | some v => cases v <;> simp [isAbsent]

theorem missing?_eq_none_iff :
    missing? fields schema = none ↔ ∀ name, Requires schema name → Present fields name := by
  have hfind (names : List Json) :
      (∀ name, (names.filterMap Json.str?).find? (fun name => isAbsent (lookup name fields)) ≠
        some name) ↔ ∀ name, .str name ∈ names → Present fields name := by
    rw [← Option.eq_none_iff_forall_ne_some, List.find?_eq_none]
    simp [isAbsent_lookup_iff, List.mem_filterMap, str?_eq_some]
  simp only [missing?, Option.bind_eq_bind, Option.bind_eq_none_iff, bind_arr?_eq_some,
    reduceCtorEq, imp_false, hfind]
  exact ⟨fun h name ⟨names, hnames, hname⟩ => h names hnames name hname,
    fun h names hnames name hname => h name ⟨names, hnames, hname⟩⟩

/-- The first required field that is missing is found. -/
theorem missing?_eq_some {w : Violation} (h : missing? fields schema = some w) :
    Blames schema (.obj fields) w.field := by
  simp only [missing?, Option.bind_eq_bind, Option.bind_eq_some_iff, Option.some.injEq] at h
  obtain ⟨names, hnames, name, hname, rfl⟩ := h
  rw [← Option.bind_eq_some_iff, bind_arr?_eq_some] at hnames
  obtain ⟨hmissing, before, after, hsplit, hbefore⟩ := List.find?_eq_some_iff_append.1 hname
  obtain ⟨front, back, rfl, hfront, hback⟩ := List.filterMap_eq_append_iff.1 hsplit
  obtain ⟨others, j, rest, rfl, hothers, hj, hrest⟩ := List.filterMap_eq_cons_iff.1 hback
  obtain rfl := str?_eq_some.1 hj
  rw [← List.append_assoc] at hnames
  refine .missing rfl hnames (isAbsent_lookup_iff.1 hmissing) fun n hn => ?_
  rcases List.mem_append.1 hn with hn | hn
  · have hpresent := hbefore n (hfront ▸ List.mem_filterMap.2 ⟨.str n, hn, rfl⟩)
    rwa [Bool.not_eq_true', ← Bool.not_eq_true, isAbsent_lookup_iff, not_not] at hpresent
  · cases hothers _ hn

theorem faultOf?_eq_none_iff {f : String × Json} : faultOf? properties f = none ↔
    (f.2 ≠ .null → ∀ property, lookup f.1 properties = some property → Fits f.2 property) := by
  rw [faultOf?]
  split
  · rename_i hnull
    simp [isNull_iff.1 hnull]
  · rename_i hnull
    simp only [Option.bind_eq_bind, Option.bind_eq_none_iff, reduceCtorEq, imp_false, ← ne_eq,
      ← Option.eq_none_iff_forall_ne_some, fieldFault?_eq_none_iff]
    exact ⟨fun h _ => h, fun h => h (mt isNull_iff.2 hnull)⟩

/-- The fault of a field names the field. -/
theorem field_of_faultOf? {f : String × Json} {w : Violation} (h : faultOf? properties f = some w) :
    w.field = some f.1 := by
  rw [faultOf?] at h
  split at h
  · cases h
  · simp only [Option.bind_eq_bind, Option.bind_eq_some_iff, Option.some.injEq] at h
    obtain ⟨property, -, reason, -, rfl⟩ := h
    rfl

/-- When the fields are in order, those that do not fit are those with a fault. -/
theorem unfit_iff (hsorted : fields.Pairwise fun f g => f.1 < g.1)
    (hproperties : schema.get? "properties" = some (.obj properties)) :
    Unfit schema fields name ↔ ∃ v, (name, v) ∈ fields ∧ faultOf? properties (name, v) ≠ none := by
  have hnodup : (fields.map (·.1)).Nodup :=
    (List.pairwise_map.2 hsorted).imp fun hless => Std.ne_of_lt hless
  simp only [Unfit, hproperties, Option.some.injEq, Json.obj.injEq, lookup_eq_some_iff hnodup,
    ne_eq, faultOf?_eq_none_iff, Classical.not_imp, not_forall]
  constructor
  · rintro ⟨v, _, property, hv, hnull, rfl, hproperty, hfits⟩
    exact ⟨v, hv, hnull, property, hproperty, hfits⟩
  · rintro ⟨v, hv, hnull, property, hproperty, hfits⟩
    exact ⟨v, properties, property, hv, hnull, rfl, hproperty, hfits⟩

theorem faulty?_eq_none_iff (hsorted : fields.Pairwise fun f g => f.1 < g.1) :
    faulty? fields schema = none ↔ ∀ name, ¬Unfit schema fields name := by
  simp only [faulty?, Option.bind_eq_bind, Option.bind_eq_none_iff, bind_obj?_eq_some,
    List.findSome?_eq_none_iff]
  constructor
  · intro h name hunfit
    obtain ⟨_, properties, _, -, -, hproperties, -, -⟩ := id hunfit
    obtain ⟨v, hv, hfault⟩ := (unfit_iff hsorted hproperties).1 hunfit
    exact hfault (h properties hproperties _ hv)
  · intro h properties hproperties f hf
    by_contra hfault
    exact h f.1 ((unfit_iff hsorted hproperties).2 ⟨f.2, hf, hfault⟩)

/-- The least field that does not fit is found. -/
theorem faulty?_eq_some {w : Violation} (hsorted : fields.Pairwise fun f g => f.1 < g.1)
    (h : faulty? fields schema = some w) :
    ∃ name, w.field = some name ∧ Unfit schema fields name ∧
      ∀ n, Unfit schema fields n → name ≤ n := by
  simp only [faulty?, Option.bind_eq_bind] at h
  obtain ⟨properties, hproperties, hfind⟩ := Option.bind_eq_some_iff.1 h
  rw [bind_obj?_eq_some] at hproperties
  obtain ⟨before, f, after, rfl, hf, hbefore⟩ := List.findSome?_eq_some_iff.1 hfind
  have hafter := (List.pairwise_cons.1 (List.pairwise_append.1 hsorted).2.1).1
  have hunfit (n : String) : Unfit schema (before ++ f :: after) n ↔ _ :=
    unfit_iff hsorted hproperties
  refine ⟨f.1, field_of_faultOf? hf, (hunfit f.1).2 ⟨f.2, ?_, ?_⟩, fun n hn => ?_⟩
  · exact List.mem_append_right _ List.mem_cons_self
  · simp [hf]
  · obtain ⟨v, hv, hfault⟩ := (hunfit n).1 hn
    rcases List.mem_append.1 hv with hv | hv
    · exact absurd (hbefore _ hv) hfault
    · rcases List.mem_cons.1 hv with hv | hv
      · exact hv ▸ String.le_refl _
      · exact Std.le_of_lt (hafter _ hv)

/-! ## All arguments -/

section Sorted

variable (hsorted : ∀ fields, arguments = .obj fields → fields.Pairwise fun f g => f.1 < g.1)

include hsorted

theorem violation?_eq_none_iff : violation? arguments schema = none ↔ Admits schema arguments := by
  unfold violation?
  split
  · rename_i fields
    rw [Option.or_eq_none_iff, missing?_eq_none_iff, faulty?_eq_none_iff (hsorted fields rfl)]
    constructor
    · rintro ⟨hpresent, hfits⟩
      exact ⟨fun _ => ⟨fields, rfl⟩, fun _ h => Json.obj.inj h ▸ hpresent,
        fun _ h => Json.obj.inj h ▸ hfits⟩
    · exact fun h => ⟨h.present fields rfl, h.fits fields rfl⟩
  · rename_i hother
    have hnot : ∀ fields, arguments ≠ .obj fields := fun fields h => hother fields h
    rw [ite_eq_right_iff, textAt?_eq_some]
    constructor
    · intro h
      exact ⟨fun htype => absurd (h htype) (Option.some_ne_none _),
        fun fields h => absurd h (hnot fields), fun fields h => absurd h (hnot fields)⟩
    · intro h htype
      obtain ⟨fields, hfields⟩ := h.isObject htype
      exact absurd hfields (hnot fields)

/-- What is found is to blame. -/
theorem violation?_eq_some {w : Violation} (h : violation? arguments schema = some w) :
    Blames schema arguments w.field := by
  unfold violation? at h
  split at h
  · rename_i fields
    rcases Option.or_eq_some_iff.1 h with hmissing | ⟨hnone, hfaulty⟩
    · exact missing?_eq_some hmissing
    · obtain ⟨name, hname, hunfit, hleast⟩ := faulty?_eq_some (hsorted fields rfl) hfaulty
      rw [hname]
      exact .unfit rfl (missing?_eq_none_iff.1 hnone) hunfit hleast
  · rename_i hother
    split at h
    · rename_i htype
      cases h
      exact .whole (textAt?_eq_some.1 htype) fun fields h => hother fields h
    · cases h

/-- **The check decides what the schema asks for.**  It finds nothing just when the schema admits
the arguments.  What it finds is of no field only when the arguments are no object; otherwise it
names the first required field that is missing, and if none is, the least that does not fit. -/
theorem violation?_decides :
    (violation? arguments schema = none ↔ Admits schema arguments) ∧
      ∀ w, violation? arguments schema = some w → Blames schema arguments w.field :=
  ⟨violation?_eq_none_iff hsorted, fun _ => violation?_eq_some hsorted⟩

end Sorted

/-- An array with a wrong item is found. -/
theorem violation?_decides_media :
    let schema : Json := .obj [("properties", .obj
        [("action", .obj [("enum", Json.texts ["create", "list"]), ("type", .str "string")]),
          ("media", .obj [("items", .obj [("type", .str "string")]), ("type", .str "array")])]),
      ("required", Json.texts ["action"]), ("type", .str "object")]
    let arguments : Json := .obj [("action", .str "list"), ("media", .arr [.str "a", .int 1])]
    (∀ fields, arguments = .obj fields → fields.Pairwise fun f g => f.1 < g.1) ∧
      violation? arguments schema =
        some ⟨some "media", "field 'media' expected items of type 'string', got number"⟩ ∧
      Blames schema arguments (some "media") := by
  intro schema arguments
  have hsorted : ∀ fields, arguments = .obj fields → fields.Pairwise fun f g => f.1 < g.1 := by
    intro fields h
    rw [← Json.obj.inj h]
    decide
  have hfound : violation? arguments schema =
      some ⟨some "media", "field 'media' expected items of type 'string', got number"⟩ := by
    decide +kernel
  exact ⟨hsorted, hfound, (violation?_decides hsorted).2 _ hfound⟩

end Tool.Schema

end Parley
