import Parley.Proofs.Json.Records
import Parley.Proofs.Time.Rfc3339
import Parley.Session.File

/-!
# Turns and descriptions are read back

The line of a turn is read as that turn, if its time is an instant that can be read and the
arguments of its call can (`readText_turn`): they stand two levels deep in the line, which leaves
them 125 of the levels that a text may nest.  The first line of a session's file is read as the
session without its turns (`readText_description`).
-/

namespace Parley

open Json

/-! ## Turns -/

/-- How deep the arguments of a call may nest in a line. -/
def argumentDepth : Nat := maxNesting - 2

/-- A content whose line is read back: the arguments of a call hold no floating-point numbers and
do not nest too deep. -/
def Content.Storable : Content → Prop
  | .toolCall _ _ arguments => Plain argumentDepth arguments
  | _ => True

/-- A turn whose line is read back. -/
structure Turn.Storable (t : Turn) : Prop where
  content : t.content.Storable
  timestamp : t.timestamp.Valid

theorem Role.lookup_name (role : Role) : Role.names.lookup role.name = some role := by
  cases role <;> rfl

theorem ToolStatus.lookup_name (status : ToolStatus) :
    ToolStatus.names.lookup status.name = some status := by
  cases status <;> rfl

theorem decode_timestamp (a : Access) {t : Timestamp} (h : t.Valid) :
    Timestamp.decoder a (tree t.toJson) = some t := by
  simp only [Timestamp.decoder, Decoder.andThen, Timestamp.toJson, decode_str, Option.bind_some,
    Timestamp.ofText?_rfc3339 h]

theorem Content.exact_toJson {c : Content} (h : c.Storable) : c.toJson.Exact := by
  cases c with
  | text said =>
    refine .obj ?_
    simp only [List.forall_mem_cons]
    exact ⟨.str _, .str _, nofun⟩
  | toolCall callId name arguments =>
    refine .obj ?_
    simp only [List.forall_mem_cons]
    exact ⟨.str _, .str _, .str _, Plain.exact h, nofun⟩
  | toolResult callId name output status =>
    refine .obj ?_
    simp only [List.forall_mem_cons]
    exact ⟨.str _, .str _, .str _, .str _, .str _, nofun⟩

theorem Turn.exact_toJson {t : Turn} (h : t.content.Storable) : t.toJson.Exact := by
  refine .obj ?_
  simp only [List.forall_mem_cons]
  exact ⟨.str _, Content.exact_toJson h, .str _, nofun⟩

theorem decode_content {c : Content} (h : c.Storable) :
    Content.decoder (.streamed (argumentDepth + 1)) (tree c.toJson) = some c := by
  have hstr := admits_str (.streamed argumentDepth)
  cases c with
  | text said =>
    rw [Content.decoder, Content.toJson, tagged_obj rfl (by simp) _ rfl]
    · rw [record?_obj rfl (by simp) (by simp)]
      simp [required_found, lookup, decode_str]
    · exact List.forall_mem_cons.2 ⟨hstr _, List.forall_mem_nil _⟩
  | toolCall callId name arguments =>
    have hvalue : Decoder.value .buffered arguments.tree = some arguments := by
      rw [Decoder.value, Access.admits, if_pos rfl, value?_tree h]
    rw [Content.decoder, Content.toJson, tagged_obj rfl (by simp) _ rfl]
    · rw [record?_obj rfl (by simp) (by simp)]
      simp [required_found, lookup, decode_str, hvalue]
    · simp only [List.forall_mem_cons]
      exact ⟨hstr _, hstr _, admits_tree h, List.forall_mem_nil _⟩
  | toolResult callId name output status =>
    rw [Content.decoder, Content.toJson, tagged_obj rfl (by simp) _ rfl]
    · rw [record?_obj rfl (by simp) (by simp)]
      simp [required_found, lookup, decode_str, decode_oneOf, ToolStatus.lookup_name]
    · simp only [List.forall_mem_cons]
      exact ⟨hstr _, hstr _, hstr _, hstr _, List.forall_mem_nil _⟩

theorem decode_turn {t : Turn} (h : t.Storable) :
    Turn.decoder (.streamed maxNesting) (tree t.toJson) = some t := by
  have hcontent := decode_content h.content
  rw [Turn.decoder, Turn.toJson,
    record?_obj (b := .streamed (argumentDepth + 1)) rfl (by simp) (by simp)]
  simp [required_found, lookup, decode_oneOf, Role.lookup_name, hcontent,
    decode_timestamp _ h.timestamp]

/-- **The line of a turn is read as the turn.** -/
theorem readText_turn {t : Turn} (h : t.Storable) :
    Turn.decoder.readText t.toJson.compact = some t := by
  rw [readText_compact (Turn.exact_toJson h.content), decode_turn h]

/-! ## Descriptions -/

namespace SessionFile

theorem exact_description (s : Session) : (description s).Exact := by
  rw [description]
  cases s.title with
  | none =>
    refine .obj ?_
    simp only [Option.toList, List.map_nil, List.append_nil, List.cons_append, List.nil_append,
      List.forall_mem_cons]
    exact ⟨.str _, .str _, .str _, .str _, .str _, .str _, nofun⟩
  | some title =>
    refine .obj ?_
    simp only [Option.toList, List.map_cons, List.map_nil, List.cons_append, List.nil_append,
      List.forall_mem_cons]
    exact ⟨.str _, .str _, .str _, .str _, .str _, .str _, .str _, nofun⟩

/-- **The first line of a session's file is read as the session without its turns.** -/
theorem readText_description {s : Session} (hcreated : s.createdAt.Valid)
    (hupdated : s.updatedAt.Valid) :
    descriptionDecoder.readText (description s).compact =
      some ⟨"metadata", { s with transcript := [] }⟩ := by
  rw [readText_compact (exact_description s), description, descriptionDecoder]
  cases htitle : s.title with
  | none =>
    rw [record?_obj (b := .streamed (maxNesting - 1)) rfl (by simp) (by simp)]
    simp [required_found, orElse_found, lookup, decode_str, decode_timestamp _ hcreated,
      decode_timestamp _ hupdated]
  | some title =>
    rw [record?_obj (b := .streamed (maxNesting - 1)) rfl (by simp) (by simp)]
    simp [required_found, orElse_found, lookup, decode_str, decode_orNull,
      decode_timestamp _ hcreated, decode_timestamp _ hupdated]

end SessionFile

end Parley
