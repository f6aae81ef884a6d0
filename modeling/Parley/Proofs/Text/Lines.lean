import Mathlib.Data.List.TakeWhile
import Parley.Text.Blank

/-!
# Texts that are put together

The lines of a text that ends with a line feed do not depend on what is added to it
(`lines_append`), and what is added is cut into lines by itself.  Text after the last feed
(`unended`) does not have that independence: it becomes the start of the next line.
-/

namespace Parley.Text

/-- A text that is empty or ends with a line feed. -/
def Closed (s : List Char) : Prop := s = [] ∨ ∃ body, s = body ++ ['\n']

variable {s t line : List Char}

theorem closed_nil : Closed [] := .inl rfl

theorem closed_feed (body : List Char) : Closed (body ++ ['\n']) := .inr ⟨body, rfl⟩

theorem Closed.append (hs : Closed s) (ht : Closed t) : Closed (s ++ t) := by
  rcases ht with rfl | ⟨body, rfl⟩
  · rw [List.append_nil]
    exact hs
  · rw [← List.append_assoc]
    exact closed_feed _

/-! ## Pieces -/

theorem pieces_ne_nil (s : List Char) : pieces s ≠ [] := by
  induction s with
  | nil => exact List.cons_ne_nil _ _
  | cons c s ih =>
    rw [pieces]
    split
    · exact List.cons_ne_nil _ _
    · split <;> exact List.cons_ne_nil _ _

theorem pieces_feed (s t : List Char) : pieces (s ++ '\n' :: t) = pieces s ++ pieces t := by
  induction s with
  | nil => rfl
  | cons c s ih =>
    rw [List.cons_append, pieces, ih, pieces]
    by_cases hc : c = '\n'
    · rw [if_pos hc, if_pos hc, List.cons_append]
    · obtain ⟨piece, more, hpieces⟩ := List.exists_cons_of_ne_nil (pieces_ne_nil s)
      rw [if_neg hc, if_neg hc, hpieces]
      rfl

theorem pieces_of_no_feed (h : '\n' ∉ s) : pieces s = [s] := by
  induction s with
  | nil => rfl
  | cons c s ih =>
    have hc : c ≠ '\n' := fun hc => h (hc ▸ List.mem_cons_self)
    rw [pieces, if_neg hc, ih fun hs => h (List.mem_cons_of_mem _ hs)]

theorem linesOfPieces_append (done : List (List Char)) {more : List (List Char)} (h : more ≠ []) :
    linesOfPieces (done ++ more) = done.map dropReturn ++ linesOfPieces more := by
  induction done with
  | nil => rfl
  | cons piece done ih =>
    rw [List.cons_append, linesOfPieces, ih, List.map_cons, List.cons_append]
    intro hnil
    exact h (List.append_eq_nil_iff.1 hnil).2

/-! ## Lines -/

theorem lines_feed (s t : List Char) :
    lines (s ++ '\n' :: t) = (pieces s).map dropReturn ++ lines t := by
  rw [lines, pieces_feed, linesOfPieces_append _ (pieces_ne_nil t), lines]

/-- **The lines of a closed text stay, whatever is added.** -/
theorem lines_append (h : Closed s) (t : List Char) : lines (s ++ t) = lines s ++ lines t := by
  rcases h with rfl | ⟨body, rfl⟩
  · rfl
  · have hfeed := lines_feed body []
    have hnil : lines [] = [] := rfl
    rw [hnil, List.append_nil] at hfeed
    rw [List.append_assoc, List.singleton_append, lines_feed, hfeed]

/-- One line that ends with a feed. -/
theorem lines_line (h : '\n' ∉ line) (hreturn : line.getLast? ≠ some '\r') :
    lines (line ++ ['\n']) = [line] := by
  have hnil : lines [] = [] := rfl
  rw [lines_feed, pieces_of_no_feed h, hnil, List.append_nil, List.map_singleton, dropReturn,
    if_neg hreturn]

/-- Text without a feed is a line, unless it is empty. -/
theorem lines_of_no_feed (h : '\n' ∉ line) : lines line = if line.isEmpty then [] else [line] := by
  rw [lines, pieces_of_no_feed h, linesOfPieces]

/-! ## After the last feed -/

/-- What follows the last line feed. -/
def unended (s : List Char) : List Char := (s.reverse.takeWhile (· ≠ '\n')).reverse

theorem feed_not_mem_unended (s : List Char) : '\n' ∉ unended s := by
  rw [unended, List.mem_reverse]
  intro hmem
  have hfeed := List.mem_takeWhile_imp hmem
  rw [decide_eq_true_eq] at hfeed
  exact hfeed rfl

/-- **Every text is a closed part and what follows its last line feed.** -/
theorem exists_closed_append (s : List Char) :
    ∃ closed, s = closed ++ unended s ∧ Closed closed := by
  have hsplit := List.takeWhile_append_dropWhile (p := (· ≠ '\n')) (l := s.reverse)
  refine ⟨(s.reverse.dropWhile (· ≠ '\n')).reverse, ?_, ?_⟩
  · rw [unended, ← List.reverse_append, hsplit, List.reverse_reverse]
  · cases hrest : s.reverse.dropWhile (· ≠ '\n') with
    | nil => exact closed_nil
    | cons c body =>
      have hfeed := List.head?_dropWhile_not (· ≠ '\n') s.reverse
      rw [hrest] at hfeed
      have hc : c = '\n' := by simpa using hfeed
      rw [hc, List.reverse_cons]
      exact closed_feed _

/-- Text without a feed is what follows the last feed of a closed text. -/
theorem unended_append (hs : Closed s) (ht : '\n' ∉ t) : unended (s ++ t) = t := by
  have hall : ∀ c ∈ t.reverse, decide (c ≠ '\n') = true := by
    intro c hc
    rw [decide_eq_true_eq]
    rintro rfl
    exact ht (List.mem_reverse.1 hc)
  rw [unended, List.reverse_append, List.takeWhile_append_of_pos hall]
  rcases hs with rfl | ⟨body, rfl⟩
  · rw [List.reverse_nil, List.takeWhile_nil, List.append_nil, List.reverse_reverse]
  · rw [List.reverse_concat, List.takeWhile_cons_of_neg (by decide), List.append_nil,
      List.reverse_reverse]

end Parley.Text

namespace String

open Parley

theorem textLines_append {s : String} (h : Text.Closed s.toList) (t : String) :
    (s ++ t).textLines = s.textLines ++ t.textLines := by
  rw [textLines, toList_append, Text.lines_append h, List.map_append]
  rfl

end String
