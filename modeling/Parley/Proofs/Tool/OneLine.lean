import Parley.Agent.Run
import Parley.Proofs.Text.Lines
import Parley.Terminal.Render

/-!
# Calls on one line

A call is announced to people in short, and the arguments are the model's.  What is clipped is cut
at its first line feed (`oneLine_clip`), so that no value breaks the line, whatever its kind.  Some
texts are shown as they stand (`verbatim`): the name of the tool, the names of the fields whose
values are shown, and whom a message goes to.  The announcement is one line just when these are
(`oneLine_call`).
-/

namespace Parley

/-! ## Lines and feeds -/

namespace Text

variable {s line : List Char}

theorem feed_not_mem_pieces (h : line ∈ pieces s) : '\n' ∉ line := by
  induction s generalizing line with
  | nil =>
    rw [List.mem_singleton.1 h]
    exact List.not_mem_nil
  | cons c s ih =>
    rw [pieces] at h
    split_ifs at h with hfeed
    · rcases List.mem_cons.1 h with rfl | hmore
      · exact List.not_mem_nil
      · exact ih hmore
    · split at h
      · rw [List.mem_singleton.1 h]
        exact List.not_mem_cons_of_ne_of_not_mem (Ne.symm hfeed) List.not_mem_nil
      · rename_i piece more hpieces
        rw [hpieces] at ih
        rcases List.mem_cons.1 h with rfl | hmore
        · exact List.not_mem_cons_of_ne_of_not_mem (Ne.symm hfeed) (ih List.mem_cons_self)
        · exact ih (List.mem_cons_of_mem _ hmore)

theorem dropReturn_subset (line : List Char) : dropReturn line ⊆ line := by
  rw [dropReturn]
  split_ifs
  · exact List.dropLast_subset line
  · exact List.Subset.refl line

/-- A line is a piece, less the carriage return before its feed. -/
theorem exists_piece_of_mem_linesOfPieces {parts : List (List Char)}
    (h : line ∈ linesOfPieces parts) : ∃ piece ∈ parts, line ⊆ piece := by
  fun_induction linesOfPieces parts with
  | case1 => cases h
  | case2 => cases h
  | case3 last => exact ⟨last, List.mem_cons_self, (List.mem_singleton.1 h) ▸ List.Subset.refl _⟩
  | case4 piece more _ ih =>
    rcases List.mem_cons.1 h with rfl | hmore
    · exact ⟨piece, List.mem_cons_self, dropReturn_subset piece⟩
    · obtain ⟨found, hfound, hsubset⟩ := ih hmore
      exact ⟨found, List.mem_cons_of_mem _ hfound, hsubset⟩

/-- **There is no line feed in a line.** -/
theorem feed_not_mem_of_mem_lines (h : line ∈ lines s) : '\n' ∉ line := by
  obtain ⟨piece, hpiece, hsubset⟩ := exists_piece_of_mem_linesOfPieces h
  exact fun hfeed => feed_not_mem_pieces hpiece (hsubset hfeed)

end Text

namespace Tool.Summary

variable {s t : String} {texts : List String}

/-! ## Texts on one line -/

/-- The text is one line. -/
def OneLine (s : String) : Prop := '\n' ∉ s.toList

instance : DecidablePred OneLine := fun s => inferInstanceAs (Decidable ('\n' ∉ s.toList))

@[simp] theorem oneLine_append : OneLine (s ++ t) ↔ OneLine s ∧ OneLine t := by
  rw [OneLine, String.toList_append, List.mem_append, not_or, OneLine, OneLine]

/-- Texts with blanks between them. -/
theorem oneLine_intercalate : OneLine (" ".intercalate texts) ↔ ∀ s ∈ texts, OneLine s := by
  have hblank : OneLine " " := by decide
  induction texts with
  | nil => exact iff_of_true (by decide) (List.forall_mem_nil _)
  | cons s texts ih =>
    cases texts with
    | nil => rw [String.intercalate_singleton, List.forall_mem_singleton]
    | cons t texts =>
      rw [String.intercalate_cons_cons, oneLine_append, oneLine_append, and_iff_left hblank,
        List.forall_mem_cons]
      exact and_congr_right' ih

/-- **What is clipped is one line.** -/
theorem oneLine_clip (s : String) : OneLine (clip s) := by
  have hline : OneLine ((s.textLines.head?).getD "") := by
    rw [String.textLines, List.head?_map]
    cases hhead : (Text.lines s.toList).head? with
    | none => decide
    | some line =>
      rw [Option.map_some, Option.getD_some, OneLine, String.toList_ofList]
      exact Text.feed_not_mem_of_mem_lines (List.mem_of_mem_head? hhead)
  rw [clip]
  split_ifs
  · exact hline
  · rw [oneLine_append]
    refine ⟨?_, by decide⟩
    rw [OneLine, String.takeChars, String.toList_ofList]
    exact fun hfeed => hline (List.mem_of_mem_take hfeed)

/-! ## What is shown as it stands -/

/-- The first three fields whose values are scalars, each with the text of its value. -/
def shown (fs : List (String × Json)) : List (String × String) :=
  (fs.filterMap fun f => (scalar? f.2).map (Prod.mk f.1)).take 3

theorem fields_eq (fs : List (String × Json)) :
    fields fs = " ".intercalate ((shown fs).map fun f => f.1 ++ "=" ++ clip f.2) := by
  have hfield (f : String × Json) :
      (scalar? f.2).map (fun s => f.1 ++ "=" ++ clip s) =
        ((scalar? f.2).map (Prod.mk f.1)).map fun f => f.1 ++ "=" ++ clip f.2 := by
    rw [Option.map_map]
    rfl
  rw [fields, shown, List.map_take, List.map_filterMap]
  simp only [hfield]

/-- The channel and the chat that a message goes to, when its arguments give both. -/
def targetParts (arguments : Json) : List String :=
  match (arguments.get? "channel").bind Json.str?, (arguments.get? "chat_id").bind Json.str? with
  | some channel, some chat => [channel, chat]
  | _, _ => []

/-- The texts in the arguments that are shown without being clipped. -/
def argumentsVerbatim (name : String) (arguments : Json) : List String :=
  if name = "message" then targetParts arguments
  else
    match arguments with
    | .obj fs => (shown fs).map Prod.fst
    | _ => []

/-- The texts of a call that are shown without being clipped. -/
def verbatim (name : String) (arguments : Json) : List String :=
  name :: argumentsVerbatim name arguments

theorem oneLine_target (arguments : Json) :
    OneLine (target arguments) ↔ ∀ s ∈ targetParts arguments, OneLine s := by
  have harrow : OneLine " -> " := by decide
  have hcolon : OneLine ":" := by decide
  have hempty : OneLine "" := by decide
  rw [target, targetParts]
  cases (arguments.get? "channel").bind Json.str? with
  | none => exact iff_of_true hempty (List.forall_mem_nil _)
  | some channel =>
    cases (arguments.get? "chat_id").bind Json.str? with
    | none => exact iff_of_true hempty (List.forall_mem_nil _)
    | some chat =>
      dsimp only
      rw [oneLine_append, oneLine_append, oneLine_append, List.forall_mem_cons,
        List.forall_mem_singleton, and_iff_right harrow, and_iff_left hcolon]

theorem oneLine_fields (fs : List (String × Json)) :
    OneLine (fields fs) ↔ ∀ s ∈ (shown fs).map Prod.fst, OneLine s := by
  have hequals : OneLine "=" := by decide
  rw [fields_eq, oneLine_intercalate, List.forall_mem_map, List.forall_mem_map]
  refine forall₂_congr fun f _ => ?_
  rw [oneLine_append, oneLine_append, and_iff_left hequals, and_iff_left (oneLine_clip f.2)]

/-- **The arguments in short are one line just when what is not clipped is.** -/
theorem oneLine_arguments (name : String) (arguments : Json) :
    OneLine (Summary.arguments name arguments) ↔
      ∀ s ∈ argumentsVerbatim name arguments, OneLine s := by
  unfold Summary.arguments argumentsVerbatim
  split_ifs with hmessage
  · rw [oneLine_append, oneLine_target, and_iff_right (oneLine_clip _)]
  · cases arguments <;> dsimp only
    case obj fs => exact oneLine_fields fs
    all_goals exact iff_of_true (oneLine_clip _) (List.forall_mem_nil _)

/-- **A call is shown on one line just when the texts in it that are not clipped are one line.** -/
theorem oneLine_call (name : String) (arguments : Json) :
    OneLine (call name arguments) ↔ ∀ s ∈ verbatim name arguments, OneLine s := by
  have hopen : OneLine "[tool:" := by decide
  have hclose : OneLine "]" := by decide
  have hblank : OneLine " " := by decide
  have hshort : OneLine
      (if (Summary.arguments name arguments).isEmpty then ""
        else " " ++ Summary.arguments name arguments) ↔
      OneLine (Summary.arguments name arguments) := by
    split_ifs with hempty
    · rw [String.isEmpty_iff.1 hempty]
    · rw [oneLine_append, and_iff_right hblank]
  rw [call, oneLine_append, oneLine_append, oneLine_append, hshort, oneLine_arguments, verbatim,
    List.forall_mem_cons, and_iff_right hopen, and_iff_left hclose]

end Tool.Summary

namespace Agent

open Tool.Summary

/-- **An announcement is one line just when the name of the tool and the texts in the arguments
that are not clipped are one line**, in a run's notice as on the terminal. -/
theorem notice_on_one_line_iff (m : Mission) (c : Model.ToolCall) :
    (OneLine (m.notice c).summary ↔ ∀ s ∈ verbatim c.name c.arguments, OneLine s) ∧
      (OneLine (Terminal.render (.call (m.notice c))) ↔
        ∀ s ∈ verbatim c.name c.arguments, OneLine s) := by
  have hindent : OneLine "  " := by decide
  refine ⟨oneLine_call _ _, ?_⟩
  rw [Terminal.render, oneLine_append, and_iff_right hindent]
  exact oneLine_call _ _

/-- The name of a field breaks the line, and so does the channel that a message goes to. -/
theorem notice_on_two_lines :
    (OneLine "x" ∧ ¬ OneLine (call "x" (.obj [("a\nb", .int 1)]))) ∧
      (OneLine "message" ∧ ¬ OneLine (call "message"
        (.obj [("channel", .str "ws\nx"), ("chat_id", .str "7"), ("content", .str "hi")]))) := by
  decide +kernel

end Agent

end Parley
