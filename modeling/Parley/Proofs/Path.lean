import Parley.Path

/-!
# Names and paths

The last part of a path is the name of something right below a directory (`IsComponent`), whatever
the path is: it is never empty, never stands for the directory itself or the one above, and has no
separator in it.  Below a path, such a name is one part more (`parts_join`), so that what is saved
under it stays in its directory.
-/

namespace Parley.Path

variable {path base name part : String} {text : List Char}

/-- A name that something right below a directory may have. -/
structure IsComponent (name : String) : Prop where
  nonempty : name ≠ ""
  ne_same : name ≠ "."
  ne_above : name ≠ ".."
  whole : '/' ∉ name.toList

/-- The pieces of a path, latest first and each backwards, after one more character. -/
def step (done : List (List Char)) (c : Char) : List (List Char) :=
  if c = '/' then [] :: done
  else
    match done with
    | part :: rest => (c :: part) :: rest
    | [] => [[c]]

/-- The parts that some pieces make. -/
def kept (pieces : List (List Char)) : List String :=
  (pieces.map fun piece => String.ofList piece.reverse).filter fun part => part ≠ "" && part ≠ "."

theorem parts_eq (path : String) : parts path = kept (path.toList.foldl step [[]]) := rfl

theorem foldl_slash (done : List (List Char)) : ['/'].foldl step done = [] :: done := rfl

theorem step_of_ne {c : Char} (h : c ≠ '/') (piece : List Char) (done : List (List Char)) :
    step (piece :: done) c = (c :: piece) :: done := if_neg h

/-- A piece without characters is no part. -/
theorem kept_nil_cons (done : List (List Char)) : kept ([] :: done) = kept done := rfl

/-- Up to the next separator there is one piece. -/
theorem foldl_step (h : '/' ∉ text) (piece : List Char) (done : List (List Char)) :
    text.foldl step (piece :: done) = (text.reverse ++ piece) :: done := by
  induction text generalizing piece with
  | nil => rfl
  | cons c rest ih =>
    obtain ⟨hc, hrest⟩ := List.ne_and_not_mem_of_not_mem_cons h
    rw [List.foldl_cons, step_of_ne hc.symm, ih hrest, List.reverse_cons, List.append_assoc]
    rfl

example : lastPart? "../../etc/notes.txt" = some "notes.txt" := by decide +kernel

/-! ## Joining -/

/-- After a separator, a name is one part more. -/
theorem kept_name (h : IsComponent name) (done : List (List Char)) :
    kept (name.toList.foldl step ([] :: done)) = name :: kept done := by
  have hname : (decide (name ≠ "") && decide (name ≠ ".")) = true := by
    rw [Bool.and_eq_true, decide_eq_true_eq, decide_eq_true_eq]
    exact ⟨h.nonempty, h.ne_same⟩
  rw [foldl_step h.whole, kept, List.append_nil, List.map_cons, List.reverse_reverse,
    String.ofList_toList, List.filter_cons, if_pos hname]
  rfl

theorem toList_of_endsWith (h : base.endsWith "/") : ∃ start, base.toList = start ++ ['/'] := by
  rw [String.endsWith_eq_endsWith_toSlice, String.Slice.endsWith_string_iff,
    String.copy_toSlice] at h
  obtain ⟨start, hstart⟩ := h
  exact ⟨start, hstart.symm⟩

/-- **Below a path, a name is one part more.** -/
theorem parts_join (h : IsComponent name) (base : String) :
    parts (join base name) = name :: parts base := by
  have hrelative : name.startsWith "/" = false := by
    rw [String.startsWith_string_eq_false_iff]
    exact fun hlead => h.whole (hlead.subset List.mem_cons_self)
  rw [join, hrelative, if_neg Bool.false_ne_true, parts_eq, parts_eq]
  split
  · rename_i hbase
    rw [String.toList_append]
    rcases Bool.or_eq_true_iff.1 hbase with hempty | hends
    · rw [String.isEmpty_iff.1 hempty]
      exact kept_name h []
    · obtain ⟨start, hstart⟩ := toList_of_endsWith hends
      rw [hstart, List.foldl_append, List.foldl_append, foldl_slash, kept_name h, kept_nil_cons]
  · have hslash : ("/" : String).toList = ['/'] := rfl
    rw [String.toList_append, String.toList_append, hslash, List.foldl_append, List.foldl_append,
      foldl_slash, kept_name h]

end Parley.Path
