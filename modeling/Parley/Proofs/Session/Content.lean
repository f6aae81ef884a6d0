import Parley.Proofs.Json.Prefixes
import Parley.Proofs.Session.Records
import Parley.Proofs.Text.Lines

/-!
# The content of a session's file

The content that is written of a session is read as that session (`read?_text`), as far as a file
says: the time of the last change is the later one of what the description and the last turn have
(`assemble`).  A turn is recorded by its line alone (`text_extend`).
-/

namespace Parley

open Json

/-- A session whose file is read back. -/
structure Session.Storable (s : Session) : Prop where
  createdAt : s.createdAt.Valid
  updatedAt : s.updatedAt.Valid
  transcript : ∀ t ∈ s.transcript, t.Storable

namespace SessionFile

/-! ## Lines -/

theorem toList_line (j : Json) : (line j).toList = j.render ++ ['\n'] := by
  rw [line, String.toList_append, compact, String.toList_ofList]
  rfl

theorem closed_line (j : Json) : Text.Closed (line j).toList := by
  rw [toList_line]
  exact Text.closed_feed _

/-- The line of an object is one line. -/
theorem textLines_line {fields : List (String × Json)} (h : (obj fields).Exact) :
    (line (.obj fields)).textLines = [(obj fields).compact] := by
  have hreturn : (render (.obj fields)).getLast? ≠ some '\r' := by
    rw [getLast?_render_obj]
    decide
  rw [String.textLines, toList_line, Text.lines_line (feed_not_mem_render h) hreturn]
  rfl

theorem isAllBlank_compact_obj (fields : List (String × Json)) :
    (obj fields).compact.isAllBlank = false := by
  rw [String.isAllBlank, compact, String.toList_ofList, render, List.all_cons]
  rfl

/-! ## Contents -/

/-- **A turn is recorded by its line.** -/
theorem text_extend (s : Session) (t : Turn) :
    text { s with transcript := s.transcript ++ [t] } = text s ++ line t.toJson := by
  rw [text, List.foldl_append]
  rfl

/-- Lines that are added to closed content. -/
theorem textLines_foldl {transcript : List Turn} (h : ∀ t ∈ transcript, t.Storable) {done : String}
    (hdone : Text.Closed done.toList) :
    Text.Closed (transcript.foldl (fun done t => done ++ line t.toJson) done).toList ∧
      (transcript.foldl (fun done t => done ++ line t.toJson) done).textLines =
        done.textLines ++ transcript.map fun t => t.toJson.compact := by
  induction transcript generalizing done with
  | nil => exact ⟨hdone, (List.append_nil _).symm⟩
  | cons t transcript ih =>
    have hline : (line t.toJson).textLines = [t.toJson.compact] :=
      textLines_line (Turn.exact_toJson (h t List.mem_cons_self).content)
    have hclosed : Text.Closed (done ++ line t.toJson).toList := by
      rw [String.toList_append]
      exact hdone.append (closed_line _)
    obtain ⟨hall, hlines⟩ := ih (fun u hu => h u (List.mem_cons_of_mem _ hu)) hclosed
    refine ⟨hall, ?_⟩
    rw [List.foldl_cons, hlines, String.textLines_append hdone, hline, List.map_cons,
      List.append_assoc, List.singleton_append]

theorem closed_text {s : Session} (h : s.Storable) : Text.Closed (text s).toList :=
  (textLines_foldl h.transcript (closed_line _)).1

theorem textLines_text {s : Session} (h : s.Storable) :
    (text s).textLines =
      (description s).compact :: s.transcript.map fun t => t.toJson.compact := by
  rw [text, (textLines_foldl h.transcript (closed_line _)).2, description,
    textLines_line (exact_description s)]
  rfl

/-- The lines of turns are read as the turns. -/
theorem turns_map {transcript : List Turn} (h : ∀ t ∈ transcript, t.Storable) :
    turns (transcript.map fun t => t.toJson.compact) = transcript := by
  induction transcript with
  | nil => rfl
  | cons t transcript ih =>
    have hmore := ih fun u hu => h u (List.mem_cons_of_mem _ hu)
    rw [turns] at hmore ⊢
    rw [List.map_cons, List.filterMap_cons_some (readText_turn (h t List.mem_cons_self)), hmore]

/-- **What is written of a session is read as that session.** -/
theorem read?_text {s : Session} (h : s.Storable) :
    read? (text s) = some (assemble s s.transcript) := by
  have hlines : (text s).textLines.filter (!·.isAllBlank) =
      (description s).compact :: s.transcript.map fun t => t.toJson.compact := by
    rw [textLines_text h, List.filter_eq_self]
    intro l hl
    have hobj : ∃ fields, l = (obj fields).compact := by
      rcases List.mem_cons.1 hl with rfl | hturn
      · exact ⟨_, rfl⟩
      · obtain ⟨t, -, rfl⟩ := List.mem_map.1 hturn
        exact ⟨_, rfl⟩
    obtain ⟨fields, rfl⟩ := hobj
    rw [isAllBlank_compact_obj]
    rfl
  rw [read?, hlines]
  simp [readText_description h.createdAt h.updatedAt, turns_map h.transcript]
  rfl

end SessionFile

end Parley
