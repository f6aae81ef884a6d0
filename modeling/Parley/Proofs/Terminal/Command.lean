import Mathlib.Data.List.TakeDrop
import Parley.Proofs.Text.Blank
import Parley.Terminal.Command

/-!
# How a command line is read

The name of a command is what stands between the slash and the first white space, and its argument
is the rest of the line without white space at either end (`read_command`), whatever the argument
is: white space in the middle of it stays, and a blank argument is none.
-/

namespace Parley.Terminal

open Text

variable {word blank : List Char}

/-- A word ends where white space begins. -/
theorem span_word (hword : ∀ c ∈ word, isBlank c = false) (hblank : ∀ c ∈ blank.head?, isBlank c) :
    (word ++ blank).span (!isBlank ·) = (word, blank) := by
  have hall : ∀ c ∈ word, (!isBlank c) = true := by
    intro c hc
    rw [hword c hc]
    rfl
  rw [List.span_eq_takeWhile_dropWhile, List.takeWhile_append_of_pos hall,
    List.dropWhile_append_of_pos hall]
  cases blank with
  | nil => rw [List.takeWhile_nil, List.dropWhile_nil, List.append_nil]
  | cons c rest =>
    have hstop : ¬ (!isBlank c) = true := by
      rw [hblank c rfl]
      exact Bool.false_ne_true
    rw [List.takeWhile_cons, List.dropWhile_cons, if_neg hstop, if_neg hstop, List.append_nil]

/-- **A command is read as its name and its argument**, which is trimmed. -/
theorem read_command (word : String) (hword : word.toList.any isBlank = false)
    (argument : String) :
    Line.read ("/" ++ word ++ " " ++ argument) = Command.named word argument.trimBlank := by
  have hword (c : Char) (hc : c ∈ word.toList) : isBlank c = false :=
    Bool.eq_false_iff.2 (List.any_eq_false.1 hword c hc)
  have hslash : ∀ c ∈ '/' :: word.toList, isBlank c = false :=
    List.forall_mem_cons.2 ⟨rfl, hword⟩
  -- what follows the word, without the white space at the end of the line
  obtain ⟨blank, hsplit, hblank⟩ := exists_trimRight_append (' ' :: argument.toList)
  have hend := not_endsBlank_trimRight (' ' :: argument.toList)
  obtain ⟨rest, hrest⟩ : ∃ rest, rest = trimRight (' ' :: argument.toList) := ⟨_, rfl⟩
  rw [← hrest] at hsplit hend
  have hline : ("/" ++ word ++ " " ++ argument).toList = ('/' :: word.toList ++ rest) ++ blank := by
    rw [List.append_assoc, ← hsplit, String.toList_append, String.toList_append,
      String.toList_append, List.append_assoc, List.append_assoc]
    rfl
  have hkept : ¬ EndsBlank ('/' :: word.toList ++ rest) := by
    by_cases hnil : rest = []
    · rw [hnil, List.append_nil]
      exact not_endsBlank_of_forall hslash
    · rwa [endsBlank_append hnil]
  have hhead : ∀ c ∈ rest.head?, isBlank c := by
    intro c hc
    have hspace : c ∈ (' ' :: argument.toList).head? :=
      hsplit ▸ List.mem_head?_append_of_mem_head? hc
    rw [← Option.some.inj hspace]
    rfl
  have hargument : trim rest = trim argument.toList := by
    rw [← trim_append_of_all hblank, ← hsplit]
    exact trim_cons_of_blank rfl _
  have htrim : trim ("/" ++ word ++ " " ++ argument).toList = '/' :: (word.toList ++ rest) := by
    rw [hline, trim_append_of_all hblank]
    refine trim_eq_self (fun c hc => ?_) hkept
    cases hc
    rfl
  rw [Line.read, htrim]
  show Command.named (String.ofList ((word.toList ++ rest).span (!isBlank ·)).1)
    (String.ofList (trim ((word.toList ++ rest).span (!isBlank ·)).2)) = _
  rw [span_word hword hhead, String.ofList_toList, hargument]
  rfl

example : Line.read "/new  a  b " = .command (.new (some "a  b")) :=
  read_command "new" (by decide) " a  b "

end Parley.Terminal
