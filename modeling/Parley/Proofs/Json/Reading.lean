import Parley.Json.Decode
import Parley.Proofs.Json.Lexing
import Parley.Proofs.Json.Sorting

/-!
# Written values are read back

A value without floating-point numbers (`Exact`) is written so that its text, compact or pretty,
is read as one tree, `Json.tree` (`read?_compact`, `read?_pretty`).  If it is also a value as they
come out of reading (`Plain`: its integers fit 64 bits, its objects have their fields in order),
the tree has that very value again (`value?_tree`).

Both forms are read by the same argument.  The machine that builds trees is run over the text
(`Build.run`), and a written value takes it from awaiting a value to having put that value's tree,
whatever follows (`Reads`).  The two forms differ in their white space only: either way a
container is its parts with commas between them (`commas`), so that one lemma reads the parts of
arrays and objects in both forms (`run_commas`).
-/

namespace Parley.Json

/-! ## Values and their trees -/

/-- A value without floating-point numbers. -/
inductive Exact : Json → Prop
  | null : Exact .null
  | bool (b : Bool) : Exact (.bool b)
  | int (i : Int) : Exact (.int i)
  | str (s : String) : Exact (.str s)
  | arr {items : List Json} (h : ∀ j ∈ items, Exact j) : Exact (.arr items)
  | obj {fields : List (String × Json)} (h : ∀ f ∈ fields, Exact f.2) : Exact (.obj fields)

/-- A value without floating-point numbers that nests at most `depth` deep.  Its integers fit 64
bits, signed or unsigned, and its objects have their fields in order, one a name: so has every
value that was read. -/
inductive Plain : Nat → Json → Prop
  | null {depth : Nat} : Plain depth .null
  | bool {depth : Nat} (b : Bool) : Plain depth (.bool b)
  | int {depth : Nat} {i : Int} (hmin : -(Decimal.maxNegated : Int) ≤ i)
      (hmax : i ≤ Decimal.maxWord) : Plain depth (.int i)
  | str {depth : Nat} (s : String) : Plain depth (.str s)
  | arr {depth : Nat} {items : List Json} (h : ∀ j ∈ items, Plain depth j) :
      Plain (depth + 1) (.arr items)
  | obj {depth : Nat} {fields : List (String × Json)} (h : ∀ f ∈ fields, Plain depth f.2)
      (hsorted : fields.Pairwise fun f g => f.1 < g.1) : Plain (depth + 1) (.obj fields)

theorem Plain.exact {depth : Nat} {j : Json} (h : Plain depth j) : j.Exact := by
  induction h with
  | null => exact .null
  | bool b => exact .bool b
  | int => exact .int _
  | str s => exact .str s
  | arr _ ih => exact .arr ih
  | obj _ _ ih => exact .obj ih

mutual

/-- The tree that a value's text is read as; of a number, the literal that it is written as. -/
def tree : Json → Tree
  | null => .null
  | bool b => .bool b
  | int i => .number (.ofInt i)
  | float x => (Decimal.Literal.ofChars? (Decimal.text64 x)).elim .null .number
  | str s => .string (some s)
  | arr items => .array (trees items)
  | obj fields => .object (fieldTrees fields)

/-- The trees of some items. -/
def trees : List Json → List Tree
  | [] => []
  | item :: rest => tree item :: trees rest

/-- The trees of some fields. -/
def fieldTrees : List (String × Json) → List (Option String × Tree)
  | [] => []
  | (name, value) :: rest => (some name, tree value) :: fieldTrees rest

end

/-! ## Building over a text -/

namespace Tree

/-- The machine that builds trees, run over the tokens of a text. -/
def Build.run (s : Build) (text : List Char) : Option Build := do
  (← tokens? text).foldlM Build.step s

/-- The machine awaits a value inside the containers of `stack`, perhaps among other things. -/
def Build.Awaits (s : Build) (stack : List Frame) : Prop :=
  ∀ t, t ≠ .closeArray → s.step t = Build.start stack t

variable {s : Build} {stack : List Frame} {text rest : List Char} {t : Token}

theorem read?_eq_run (text : String) :
    Tree.read? text =
      (Build.run (.value []) text.toList).bind fun s =>
        match s with
        | .complete t => some t
        | _ => none := by
  rw [Tree.read?, Build.run]
  cases tokens? text.toList with
  | none => rfl
  | some tokens =>
    simp only [Option.bind_eq_bind, Option.bind_some, ofTokens?]
    cases tokens.foldlM Build.step (.value []) with
    | none => rfl
    | some s => cases s <;> rfl

theorem run_nil (s : Build) : s.run [] = some s := rfl

/-- A text that starts with one token. -/
theorem run_token (h : tokens? (text ++ rest) = (tokens? rest).map (t :: ·)) :
    s.run (text ++ rest) = (s.step t).bind (Build.run · rest) := by
  unfold Build.run
  rw [h]
  cases tokens? rest with
  | none => cases s.step t <;> rfl
  | some tokens => rfl

/-- A text that starts with a symbol. -/
theorem run_symbol {c : Char} {s' : Build} (h : scanFresh c = some (.between, [t]))
    (hstep : s.step t = some s') : s.run (c :: rest) = s'.run rest := by
  have hrun : s.run ([c] ++ rest) = (s.step t).bind (Build.run · rest) :=
    run_token (tokens?_symbol h)
  rw [hstep] at hrun
  exact hrun

theorem run_spaces {spaces : List Char} (h : ∀ c ∈ spaces, isSpace c) :
    s.run (spaces ++ rest) = s.run rest := by
  rw [Build.run, tokens?_spaces h]
  rfl

/-- The name of a field. -/
theorem run_name {s' : Build} {name : String} (hstep : s.step (.string (some name)) = some s') :
    s.run (quoted name ++ rest) = s'.run rest := by
  rw [run_token (tokens?_quoted name), hstep, Option.bind_some]

theorem awaits_value (stack : List Frame) : (Build.value stack).Awaits stack :=
  fun _ _ => rfl

theorem awaits_firstItem (stack : List Frame) :
    (Build.firstItem stack).Awaits (.items [] :: stack) := by
  intro t ht
  cases t <;> first | rfl | exact absurd rfl ht

end Tree

/-! ## Parts with commas between them -/

/-- Some parts with commas between them. -/
def commas : List (List Char) → List Char
  | [] => []
  | [part] => part
  | part :: rest => part ++ ',' :: commas rest

theorem stops_cons {c : Char} {rest : List Char} (hnumber : isNumberChar c = false)
    (hword : isWordChar c = false) : Stops (c :: rest) := by
  intro d hd
  cases hd
  exact ⟨hnumber, hword⟩

theorem stops_nil : Stops [] := nofun

theorem isSpace_cases {c : Char} (h : isSpace c) : c = ' ' ∨ c = '\n' ∨ c = '\r' ∨ c = '\t' := by
  simpa only [isSpace, Bool.or_eq_true, beq_iff_eq, or_assoc] using h

theorem stops_spaces {spaces rest : List Char} (h : ∀ c ∈ spaces, isSpace c) (hrest : Stops rest) :
    Stops (spaces ++ rest) := by
  cases spaces with
  | nil => exact hrest
  | cons c spaces =>
    rcases isSpace_cases (h c List.mem_cons_self) with rfl | rfl | rfl | rfl <;>
      exact stops_cons rfl rfl

open Parley.Json.Tree

/-- The characters are read as the tree, wherever a value is awaited and whatever follows. -/
def Reads (chars : List Char) (t : Tree) : Prop :=
  ∀ ⦃s : Build⦄ ⦃stack : List Frame⦄ ⦃rest : List Char⦄, s.Awaits stack → Stops rest →
    s.run (chars ++ rest) = (Build.put t stack).run rest

/-- A value that is written as one token. -/
theorem reads_token {chars : List Char} {t : Token} {v : Tree}
    (h : ∀ rest, Stops rest → tokens? (chars ++ rest) = (tokens? rest).map (t :: ·))
    (ht : t ≠ .closeArray) (hstart : ∀ stack, Build.start stack t = some (.put v stack)) :
    Reads chars v := by
  intro s stack rest hs hrest
  rw [run_token (h rest hrest), hs t ht, hstart, Option.bind_some]

theorem reads_null : Reads (render .null) .null :=
  reads_token (fun _ => tokens?_word rfl rfl rfl) nofun fun _ => rfl

theorem reads_bool (b : Bool) : Reads (render (.bool b)) (.bool b) := by
  cases b with
  | true => exact reads_token (fun _ => tokens?_word rfl rfl rfl) nofun fun _ => rfl
  | false => exact reads_token (fun _ => tokens?_word rfl rfl rfl) nofun fun _ => rfl

theorem reads_int (i : Int) : Reads (intText i) (.number (.ofInt i)) :=
  reads_token (fun _ => tokens?_intText i) nofun fun _ => rfl

theorem reads_quoted (s : String) : Reads (quoted s) (.string (some s)) :=
  reads_token (fun _ _ => tokens?_quoted s) nofun fun _ => rfl

/-! ## Containers -/

/-- Parts are read one after the other, if each is read where a part is awaited, and a comma leads
back there. -/
theorem run_commas {α : Type} (awaits : Build → List α → Prop) (after : List α → Build)
    (hcomma : ∀ done, ∃ s, (after done).step .comma = some s ∧ awaits s done)
    {part : List Char × α} {parts : List (List Char × α)}
    (hpart : ∀ p ∈ part :: parts, ∀ s done rest, awaits s done → Stops rest →
      s.run (p.1 ++ rest) = (after (p.2 :: done)).run rest)
    {s : Build} {done : List α} {rest : List Char} (hs : awaits s done) (hrest : Stops rest) :
    s.run (commas ((part :: parts).map (·.1)) ++ rest) =
      (after (((part :: parts).map (·.2)).reverse ++ done)).run rest := by
  induction parts generalizing part s done with
  | nil => exact hpart part List.mem_cons_self s done rest hs hrest
  | cons next parts ih =>
    obtain ⟨s', hstep, hs'⟩ := hcomma (part.2 :: done)
    have hnext := ih (fun p hp => hpart p (List.mem_cons_of_mem _ hp)) hs'
    have hfirst := hpart part List.mem_cons_self s done
      (',' :: (commas ((next :: parts).map (·.1)) ++ rest)) hs (stops_cons rfl rfl)
    have hcommas : commas ((part :: next :: parts).map (·.1)) =
        part.1 ++ ',' :: commas ((next :: parts).map (·.1)) := rfl
    have hdone : ((part :: next :: parts).map (·.2)).reverse ++ done =
        ((next :: parts).map (·.2)).reverse ++ part.2 :: done := by
      rw [List.map_cons, List.reverse_cons, List.append_assoc, List.singleton_append]
    rw [hcommas, hdone, List.append_assoc, List.cons_append, hfirst, run_symbol rfl hstep, hnext]

theorem Reads.lead {chars lead : List Char} {t : Tree} (h : Reads chars t)
    (hlead : ∀ c ∈ lead, isSpace c) : Reads (lead ++ chars) t := by
  intro s stack rest hs hrest
  rw [List.append_assoc, run_spaces hlead]
  exact h hs hrest

/-- **An array is read, if its items are.** -/
theorem reads_array (parts : List (List Char × Tree)) (h : ∀ p ∈ parts, Reads p.1 p.2)
    {spaces : List Char} (hspaces : ∀ c ∈ spaces, isSpace c) :
    Reads ('[' :: (commas (parts.map (·.1)) ++ (spaces ++ [']']))) (.array (parts.map (·.2))) := by
  intro s stack rest hs hrest
  have hopen (more : List Char) :
      s.run ('[' :: more) = (Build.firstItem stack).run more :=
    run_symbol rfl (hs .openArray nofun)
  rw [List.cons_append, hopen, List.append_assoc, List.append_assoc, List.singleton_append]
  cases parts with
  | nil =>
    rw [List.map_nil, commas, List.nil_append, run_spaces hspaces]
    exact run_symbol rfl rfl
  | cons part parts =>
    have hparts := run_commas (fun s done => s.Awaits (.items done :: stack))
      (fun done => Build.afterItem stack done)
      (fun done => ⟨_, rfl, awaits_value _⟩) (fun p hp s done rest hs => h p hp hs)
      (awaits_firstItem stack) (stops_spaces hspaces (stops_cons rfl rfl : Stops (']' :: rest)))
    rw [hparts, run_spaces hspaces, List.append_nil]
    refine run_symbol rfl ?_
    rw [Build.step, List.reverse_reverse]

/-- The machine awaits the name of a field of the innermost object, whose earlier fields are
`done`. -/
def AwaitsName (stack : List Frame) (s : Build) (done : List (Option String × Tree)) : Prop :=
  ∀ name, s.step (.string name) = some (.colon stack done name)

/-- A field: white space, its name, a colon, white space, its value. -/
def fieldChars (lead gap : List Char) (name : String) (chars : List Char) : List Char :=
  lead ++ (quoted name ++ ':' :: (gap ++ chars))

theorem run_field {lead gap : List Char} (hlead : ∀ c ∈ lead, isSpace c)
    (hgap : ∀ c ∈ gap, isSpace c) {name : String} {chars : List Char} {t : Tree}
    (h : Reads chars t) {s : Build} {stack : List Frame} {done : List (Option String × Tree)}
    {rest : List Char} (hs : AwaitsName stack s done) (hrest : Stops rest) :
    s.run (fieldChars lead gap name chars ++ rest) =
      (Build.afterField stack ((some name, t) :: done)).run rest := by
  have hcolon (more : List Char) : (Build.colon stack done (some name)).run (':' :: more) =
      (Build.value (.fields done (some name) :: stack)).run more := run_symbol rfl rfl
  rw [fieldChars, List.append_assoc, run_spaces hlead, List.append_assoc, run_name (hs _),
    List.cons_append, hcolon, List.append_assoc, run_spaces hgap, h (awaits_value _) hrest]
  rfl

/-- **An object is read, if the values of its fields are.** -/
theorem reads_object {lead gap : List Char} (hlead : ∀ c ∈ lead, isSpace c)
    (hgap : ∀ c ∈ gap, isSpace c) (fields : List (String × List Char × Tree))
    (h : ∀ f ∈ fields, Reads f.2.1 f.2.2) {spaces : List Char} (hspaces : ∀ c ∈ spaces, isSpace c) :
    Reads ('{' :: (commas (fields.map fun f => fieldChars lead gap f.1 f.2.1) ++ (spaces ++ ['}'])))
      (.object (fields.map fun f => (some f.1, f.2.2))) := by
  intro s stack rest hs hrest
  have hopen (more : List Char) :
      s.run ('{' :: more) = (Build.firstName stack).run more :=
    run_symbol rfl (hs .openObject nofun)
  rw [List.cons_append, hopen, List.append_assoc, List.append_assoc, List.singleton_append]
  cases fields with
  | nil =>
    rw [List.map_nil, commas, List.nil_append, run_spaces hspaces]
    exact run_symbol rfl rfl
  | cons field fields =>
    let part (f : String × List Char × Tree) : List Char × Option String × Tree :=
      (fieldChars lead gap f.1 f.2.1, some f.1, f.2.2)
    have hpart : ∀ p ∈ part field :: fields.map part, ∀ s done rest, AwaitsName stack s done →
        Stops rest → s.run (p.1 ++ rest) = (Build.afterField stack (p.2 :: done)).run rest := by
      intro p hp s done rest hs hrest
      obtain ⟨f, hf, rfl⟩ := List.mem_map.1 (List.map_cons ▸ hp)
      exact run_field hlead hgap (h f hf) hs hrest
    have hfirst : AwaitsName stack (.firstName stack) [] := fun _ => rfl
    have hfields := run_commas (AwaitsName stack) (fun done => Build.afterField stack done)
      (fun done => ⟨_, rfl, fun _ => rfl⟩) hpart hfirst
      (stops_spaces hspaces (stops_cons rfl rfl : Stops ('}' :: rest)))
    rw [← List.map_cons, List.map_map, List.map_map] at hfields
    refine hfields.trans ?_
    rw [run_spaces hspaces, List.append_nil]
    refine run_symbol rfl ?_
    rw [Build.step, List.reverse_reverse]
    rfl

/-! ## The compact form -/

theorem renderItems_eq (items : List Json) :
    renderItems items = commas (items.map render) ++ [']'] := by
  induction items with
  | nil => rfl
  | cons item more ih =>
    cases more with
    | nil => rfl
    | cons next more =>
      have hrender : renderItems (item :: next :: more) =
          render item ++ ',' :: renderItems (next :: more) := rfl
      have hcommas : commas ((item :: next :: more).map render) =
          render item ++ ',' :: commas ((next :: more).map render) := rfl
      rw [hrender, ih, hcommas, List.append_assoc, List.cons_append]

/-- A field in the compact form. -/
def renderField (f : String × Json) : List Char := fieldChars [] [] f.1 f.2.render

theorem renderFields_eq (fields : List (String × Json)) :
    renderFields fields = commas (fields.map renderField) ++ ['}'] := by
  induction fields with
  | nil => rfl
  | cons field more ih =>
    have hfield (rest : List Char) :
        quoted field.1 ++ ':' :: render field.2 ++ rest = renderField field ++ rest := rfl
    cases more with
    | nil => exact hfield ['}']
    | cons next more =>
      have hrender : renderFields (field :: next :: more) =
          renderField field ++ ',' :: renderFields (next :: more) := hfield _
      have hcommas : commas ((field :: next :: more).map renderField) =
          renderField field ++ ',' :: commas ((next :: more).map renderField) := rfl
      rw [hrender, ih, hcommas, List.append_assoc, List.cons_append]

theorem trees_eq_map (items : List Json) : trees items = items.map tree := by
  induction items with
  | nil => rfl
  | cons item more ih => rw [trees, ih, List.map_cons]

theorem fieldTrees_eq_map (fields : List (String × Json)) :
    fieldTrees fields = fields.map fun f => (some f.1, f.2.tree) := by
  induction fields with
  | nil => rfl
  | cons field more ih => rw [fieldTrees, ih, List.map_cons]

/-- Items are read, if each is. -/
theorem reads_items {items : List Json} {chars : Json → List Char}
    (h : ∀ j ∈ items, Reads (chars j) j.tree) {spaces : List Char}
    (hspaces : ∀ c ∈ spaces, isSpace c) :
    Reads ('[' :: (commas (items.map chars) ++ (spaces ++ [']']))) (tree (.arr items)) := by
  have hitems := reads_array (items.map fun j => (chars j, j.tree))
    (fun p hp => by
      obtain ⟨j, hj, rfl⟩ := List.mem_map.1 hp
      exact h j hj) hspaces
  rw [List.map_map, List.map_map] at hitems
  rw [tree, trees_eq_map]
  exact hitems

/-- Fields are read, if the value of each is. -/
theorem reads_fields {fields : List (String × Json)} {chars : Json → List Char}
    (h : ∀ f ∈ fields, Reads (chars f.2) f.2.tree) {lead gap spaces : List Char}
    (hlead : ∀ c ∈ lead, isSpace c) (hgap : ∀ c ∈ gap, isSpace c)
    (hspaces : ∀ c ∈ spaces, isSpace c) :
    Reads ('{' :: (commas (fields.map fun f => fieldChars lead gap f.1 (chars f.2)) ++
      (spaces ++ ['}']))) (tree (.obj fields)) := by
  have hfields := reads_object hlead hgap (fields.map fun f => (f.1, chars f.2, f.2.tree))
    (fun p hp => by
      obtain ⟨f, hf, rfl⟩ := List.mem_map.1 hp
      exact h f hf) hspaces
  rw [List.map_map, List.map_map] at hfields
  rw [tree, fieldTrees_eq_map]
  exact hfields

/-- **The compact form of a value is read as the value's tree.** -/
theorem reads_render {j : Json} (h : j.Exact) : Reads j.render j.tree := by
  induction h with
  | null => exact reads_null
  | bool b => exact reads_bool b
  | int i => exact reads_int i
  | str text => exact reads_quoted text
  | arr _ ih =>
    rw [render, renderItems_eq]
    exact reads_items ih (List.forall_mem_nil _)
  | obj _ ih =>
    rw [render, renderFields_eq]
    exact reads_fields ih (List.forall_mem_nil _) (List.forall_mem_nil _) (List.forall_mem_nil _)

/-- **The compact form is the text of one tree.** -/
theorem read?_compact {j : Json} (h : j.Exact) : Tree.read? j.compact = some j.tree := by
  have hrun := reads_render h (awaits_value []) stops_nil
  rw [List.append_nil] at hrun
  rw [read?_eq_run, compact, String.toList_ofList, hrun]
  rfl

/-! ### One line -/

theorem feed_not_mem_escape (c : Char) : '\n' ∉ escape c := by
  have hdigit {n : Nat} (hn : n < 16) : '\n' ≠ hexDigit n := by
    have hall : ∀ m : Fin 16, '\n' ≠ hexDigit m := by decide
    exact hall ⟨n, hn⟩
  unfold escape
  split_ifs with hquote hslash hfeed hreturn htab hback hform hcontrol
  iterate 7 decide
  · have hhigh := hdigit (n := c.toNat / 16) (by omega)
    have hlow := hdigit (n := c.toNat % 16) (by omega)
    simp [hhigh, hlow]
  · simpa using Ne.symm hfeed

theorem feed_not_mem_quoted (s : String) : '\n' ∉ quoted s := by
  intro h
  simp only [quoted, List.cons_append, List.mem_cons, List.mem_append, List.mem_flatMap,
    List.not_mem_nil, or_false] at h
  rcases h with h | ⟨c, -, h⟩ | h
  · cases h
  · exact feed_not_mem_escape c h
  · cases h

theorem feed_not_mem_commas {parts : List (List Char)} (h : ∀ p ∈ parts, '\n' ∉ p) :
    '\n' ∉ commas parts := by
  induction parts with
  | nil => exact List.not_mem_nil
  | cons part parts ih =>
    cases parts with
    | nil => exact h part List.mem_cons_self
    | cons next parts =>
      intro hmem
      rcases List.mem_append.1 hmem with hpart | hrest
      · exact h part List.mem_cons_self hpart
      · rcases List.mem_cons.1 hrest with hcomma | hmore
        · cases hcomma
        · exact ih (fun p hp => h p (List.mem_cons_of_mem _ hp)) hmore

/-- **The compact form is one line.** -/
theorem feed_not_mem_render {j : Json} (h : j.Exact) : '\n' ∉ j.render := by
  induction h with
  | null => decide
  | bool b => cases b <;> decide
  | int i =>
    intro hmem
    cases isNumberChar_of_mem_intText hmem
  | str s => exact feed_not_mem_quoted s
  | @arr items _ ih =>
    have hitems : '\n' ∉ commas (items.map render) := feed_not_mem_commas fun p hp => by
      obtain ⟨j, hj, rfl⟩ := List.mem_map.1 hp
      exact ih j hj
    rw [render, renderItems_eq]
    simpa using hitems
  | @obj fields _ ih =>
    have hfields : '\n' ∉ commas (fields.map renderField) := feed_not_mem_commas fun p hp => by
      obtain ⟨f, hf, rfl⟩ := List.mem_map.1 hp
      simpa [renderField, fieldChars, feed_not_mem_quoted] using ih f hf
    rw [render, renderFields_eq]
    simpa using hfields

/-! ## The pretty form -/

theorem isSpace_of_mem_newline {c : Char} {depth : Nat} (h : c ∈ newline depth) : isSpace c := by
  rcases List.mem_cons.1 h with rfl | hc
  · rfl
  · rw [List.eq_of_mem_replicate hc]
    rfl

theorem prettyItems_eq (depth : Nat) (items : List Json) :
    prettyItems depth items =
      commas (items.map fun j => newline (depth + 1) ++ prettyChars (depth + 1) j) := by
  induction items with
  | nil => rfl
  | cons item more ih =>
    cases more with
    | nil => rfl
    | cons next more =>
      rw [prettyItems, ih]
      · rfl
      · exact nofun

/-- A field in the pretty form. -/
def prettyField (depth : Nat) (f : String × Json) : List Char :=
  fieldChars (newline depth) [' '] f.1 (prettyChars depth f.2)

theorem prettyFields_eq (depth : Nat) (fields : List (String × Json)) :
    prettyFields depth fields = commas (fields.map (prettyField (depth + 1))) := by
  have hfield (f : String × Json) :
      newline (depth + 1) ++ quoted f.1 ++ ':' :: ' ' :: prettyChars (depth + 1) f.2 =
        prettyField (depth + 1) f := List.append_assoc ..
  induction fields with
  | nil => rfl
  | cons field more ih =>
    cases more with
    | nil => exact hfield field
    | cons next more =>
      rw [prettyFields, ih, hfield]
      · rfl
      · exact nofun

/-- **The pretty form of a value is read as the value's tree.** -/
theorem reads_prettyChars {j : Json} (h : j.Exact) (depth : Nat) :
    Reads (prettyChars depth j) j.tree := by
  induction h generalizing depth with
  | null => exact reads_null
  | bool b =>
    cases b with
    | true => exact reads_bool true
    | false => exact reads_bool false
  | int i => exact reads_int i
  | str text => exact reads_quoted text
  | @arr items _ ih =>
    cases items with
    | nil => exact reads_array [] nofun (List.forall_mem_nil _)
    | cons item more =>
      have hspace (n : Nat) : ∀ c ∈ newline n, isSpace c := fun c => isSpace_of_mem_newline
      rw [prettyChars, prettyItems_eq]
      · have hitems := reads_items (fun j hj => (ih j hj (depth + 1)).lead (hspace (depth + 1)))
          (hspace depth)
        rw [List.append_assoc]
        exact hitems
      · exact nofun
  | @obj fields _ ih =>
    cases fields with
    | nil =>
      exact reads_object (List.forall_mem_nil _) (List.forall_mem_nil _) [] nofun
        (List.forall_mem_nil _)
    | cons field more =>
      have hspace (n : Nat) : ∀ c ∈ newline n, isSpace c := fun c => isSpace_of_mem_newline
      have hgap : ∀ c ∈ [' '], isSpace c := List.all_eq_true.1 rfl
      rw [prettyChars, prettyFields_eq]
      · have hfields := reads_fields (fun f hf => ih f hf (depth + 1)) (hspace (depth + 1)) hgap
          (hspace depth)
        rw [List.append_assoc]
        exact hfields
      · exact nofun

/-- **The pretty form is the text of the same tree.** -/
theorem read?_pretty {j : Json} (h : j.Exact) : Tree.read? j.pretty = some j.tree := by
  have hrun := reads_prettyChars h 0 (awaits_value []) stops_nil
  rw [List.append_nil] at hrun
  rw [read?_eq_run, pretty, String.toList_ofList, hrun]
  rfl

/-! ## The value of a tree -/

theorem values?_trees {items : List Json} (h : ∀ j ∈ items, j.tree.value? = some j) :
    values? (trees items) = some items := by
  induction items with
  | nil => rfl
  | cons j items ih =>
    rw [trees, values?, h j List.mem_cons_self, ih fun k hk => h k (List.mem_cons_of_mem _ hk)]

theorem fieldValues?_fieldTrees {fields : List (String × Json)}
    (h : ∀ f ∈ fields, f.2.tree.value? = some f.2) :
    fieldValues? (fieldTrees fields) = some fields := by
  induction fields with
  | nil => rfl
  | cons f fields ih =>
    have hmore := ih fun g hg => h g (List.mem_cons_of_mem _ hg)
    simp only [fieldTrees, fieldValues?, h f List.mem_cons_self, hmore]

/-- **The tree of a plain value has the value.** -/
theorem value?_tree {depth : Nat} {j : Json} (h : Plain depth j) : j.tree.value? = some j := by
  induction h with
  | null => rfl
  | bool b => rfl
  | int hmin hmax => rw [tree, value?, Decimal.value?_ofInt hmin hmax, Option.map_some, ofValue]
  | str s => rfl
  | arr _ ih => rw [tree, value?, values?_trees ih, Option.map_some]
  | obj _ hsorted ih =>
    rw [tree, value?, fieldValues?_fieldTrees ih, Option.map_some, object,
      sortFields_of_pairwise hsorted]

theorem heightItems_le {depth : Nat} {items : List Json} (h : ∀ j ∈ items, j.tree.height ≤ depth) :
    heightItems (trees items) ≤ depth := by
  induction items with
  | nil => exact Nat.zero_le _
  | cons j items ih =>
    rw [trees, heightItems]
    exact Nat.max_le.2 ⟨h j List.mem_cons_self, ih fun k hk => h k (List.mem_cons_of_mem _ hk)⟩

theorem heightFields_le {depth : Nat} {fields : List (String × Json)}
    (h : ∀ f ∈ fields, f.2.tree.height ≤ depth) : heightFields (fieldTrees fields) ≤ depth := by
  induction fields with
  | nil => exact Nat.zero_le _
  | cons f fields ih =>
    rw [fieldTrees, heightFields]
    exact Nat.max_le.2 ⟨h f List.mem_cons_self, ih fun g hg => h g (List.mem_cons_of_mem _ hg)⟩

/-- The tree nests as deep as the value does. -/
theorem height_tree_le {depth : Nat} {j : Json} (h : Plain depth j) : j.tree.height ≤ depth := by
  induction h with
  | null | bool | int | str => exact Nat.zero_le _
  | arr _ ih =>
    rw [tree, height]
    exact Nat.succ_le_succ (heightItems_le ih)
  | obj _ _ ih =>
    rw [tree, height]
    exact Nat.succ_le_succ (heightFields_le ih)

/-- **A plain value is read back.** -/
theorem read?_of_plain {j : Json} (h : Plain maxNesting j) : read? j.compact = some j := by
  rw [read?, read?_compact h.exact]
  exact (if_pos (height_tree_le h)).trans (value?_tree h)

/-- **A plain value may stand wherever that many containers may still be opened.** -/
theorem admits_tree {depth : Nat} {j : Json} (h : Plain depth j) :
    (Access.streamed depth).admits j.tree := by
  rw [Access.admits, value?_tree h, Option.isSome_some, Bool.and_true, decide_eq_true_eq]
  exact height_tree_le h

end Parley.Json
