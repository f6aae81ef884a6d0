import Parley.Model.Reply
import Parley.Proofs.Json.Accepted
import Parley.Proofs.Session.Durable

/-!
# Calls that can be stored

The arguments of a call are read by themselves, and may nest as deep as any text.  In the line of
the turn that records the call they stand two levels deep, and the levels of a line are counted
from its beginning.  So the line is read back exactly if the arguments leave these two levels free
(`read?_requested`); otherwise it is passed over, as a line that is no turn, and the result of the
call stands alone.
-/

namespace Parley

open Json SessionFile

variable {raw callId name : String} {arguments : Json} {now : Timestamp} {t : Turn}

/-! ## Lines of calls -/

/-- Arguments that were read are plain, if they hold no floating-point number. -/
theorem Model.plain_of_readArguments (h : Model.readArguments raw = some arguments)
    (hexact : arguments.Exact) : Plain maxNesting arguments := by
  rw [Model.readArguments] at h
  split at h
  · cases h
    exact .obj nofun .nil
  · exact plain_of_read? h hexact

theorem exact_toolCall (hexact : arguments.Exact) :
    (Turn.toolCall callId name arguments now).toJson.Exact := by
  refine .obj ?_
  simp only [List.forall_mem_cons]
  refine ⟨.str _, .obj ?_, .str _, nofun⟩
  simp only [List.forall_mem_cons]
  exact ⟨.str _, .str _, .str _, hexact, nofun⟩

/-- In a line, arguments that nest too deep are not read, and neither is the call. -/
theorem decode_turn_of_deep (h : argumentDepth < arguments.tree.height) :
    Turn.decoder (.streamed maxNesting) (tree (Turn.toolCall callId name arguments now).toJson) =
      none := by
  have hadmits : (Access.streamed argumentDepth).admits arguments.tree = false := by
    rw [Access.admits, Bool.and_eq_false_iff, decide_eq_false_iff_not]
    exact .inl (Nat.not_le.2 h)
  have hcontent : Content.decoder (.streamed (argumentDepth + 1))
      (tree (Content.toolCall callId name arguments).toJson) = none := by
    rw [Content.decoder, Content.toJson]
    exact tagged_eq_none rfl (by simp) (f := ("arguments", arguments)) (by simp) hadmits
  rw [Turn.decoder, Turn.toJson,
    record?_obj (b := .streamed (argumentDepth + 1)) rfl (by simp) (by simp)]
  simp [required_found, lookup, Turn.toolCall, hcontent]

namespace SessionFile

/-- The turns that are read in the line of a turn: the turn, if it is read back. -/
def recalled (t : Turn) : List Turn := turns [t.toJson.compact]

/-- The line of a call holds the call, or it is passed over. -/
theorem recalled_toolCall (hplain : Plain maxNesting arguments) :
    let t := Turn.toolCall callId name arguments now
    (recalled t = [t] ↔ arguments.tree.height ≤ argumentDepth ∧ now.Valid) ∧
      (argumentDepth < arguments.tree.height → recalled t = []) := by
  intro t
  have hexact : t.toJson.Exact := exact_toolCall hplain.exact
  have hdeep (h : argumentDepth < arguments.tree.height) : recalled t = [] := by
    have hnone : Turn.decoder.readText t.toJson.compact = none := by
      rw [readText_compact hexact, decode_turn_of_deep h]
    rw [recalled, turns, List.filterMap_cons_none hnone, List.filterMap_nil]
  refine ⟨⟨fun h => ⟨?_, ?_⟩, fun h => ?_⟩, hdeep⟩
  · by_contra hheight
    rw [hdeep (Nat.lt_of_not_le hheight)] at h
    cases h
  · have hmem : t ∈ recalled t := by
      rw [h]
      exact List.mem_singleton_self t
    exact valid_of_mem_turns hmem
  · have ht : t.Storable := ⟨hplain.of_height_le h.1, h.2⟩
    rw [recalled, turns, List.filterMap_cons_some (readText_turn ht), List.filterMap_nil]

/-- A line among others is read by itself. -/
theorem read?_append_line (ht : t.toJson.Exact) {content : String} {x : Session}
    (hcontent : read? content = some x) (hclosed : Text.Closed content.toList) (rest : String) :
    ∃ y, read? (content ++ (line t.toJson ++ rest)) = some y ∧ y.key = x.key ∧
      y.transcript = x.transcript ++ (recalled t ++ turns (written rest)) := by
  have hline : written (line t.toJson ++ rest) = t.toJson.compact :: written rest :=
    written_line_append ht rest
  rw [read?_eq_readLines?] at hcontent ⊢
  rw [written_append hclosed, hline]
  obtain ⟨y, hy, hkey, htranscript⟩ := readLines?_append hcontent (t.toJson.compact :: written rest)
  refine ⟨y, hy, hkey, htranscript.trans ?_⟩
  exact congrArg (x.transcript ++ ·) (List.filterMap_append (l := [t.toJson.compact]))

/-- **Calls with arguments that were read.**  Let arguments without floating-point numbers be read
of a text.  Wherever the line of a call with them stands in a session's file, the session is read
with the lines before and after it.  The line itself is read back as the call exactly if the
arguments nest no deeper than the line leaves room for, and the instant can be read; arguments that
nest deeper, by one level or two, cost the turn. -/
theorem read?_requested (hread : Model.readArguments raw = some arguments)
    (hexact : arguments.Exact) {content : String} {x : Session} (hcontent : read? content = some x)
    (hclosed : Text.Closed content.toList) (rest : String) :
    let t := Turn.toolCall callId name arguments now
    (∃ y, read? (content ++ (line t.toJson ++ rest)) = some y ∧ y.key = x.key ∧
      y.transcript = x.transcript ++ (recalled t ++ turns (written rest))) ∧
    (recalled t = [t] ↔ arguments.tree.height ≤ argumentDepth ∧ now.Valid) ∧
    (argumentDepth < arguments.tree.height →
      recalled t = [] ∧ arguments.tree.height ≤ argumentDepth + 2) := by
  intro t
  have hplain := Model.plain_of_readArguments hread hexact
  have hrecalled : (recalled t = [t] ↔ _) ∧ _ := recalled_toolCall hplain
  obtain ⟨hiff, hdeep⟩ := hrecalled
  exact ⟨read?_append_line (exact_toolCall hexact) hcontent hclosed rest, hiff,
    fun h => ⟨hdeep h, height_tree_le hplain⟩⟩

/-! ## The two levels -/

/-- A session that has just begun. -/
def begun : Session := ⟨⟨"cli:local"⟩, ⟨"cli", "local"⟩, none, ⟨1709294400, 0⟩, ⟨1709294400, 0⟩, []⟩

theorem begun.storable : begun.Storable := ⟨⟨by decide, by decide⟩, ⟨by decide, by decide⟩, nofun⟩

/-- Objects in one another, `n + 1` of them. -/
def nested : Nat → Json
  | 0 => .obj []
  | n + 1 => .obj [("a", nested n)]

theorem nested.plain (n : Nat) : Plain (n + 1) (nested n) := by
  induction n with
  | zero => exact .obj nofun .nil
  | succ n ih => exact .obj (List.forall_mem_singleton.2 ih) (List.pairwise_singleton _ _)

theorem nested.height_tree (n : Nat) : (nested n).tree.height = n + 1 := by
  induction n with
  | zero => rfl
  | succ n ih =>
    rw [nested, tree, fieldTrees, fieldTrees, Json.Tree.height, Json.Tree.heightFields,
      Json.Tree.heightFields, Nat.max_eq_left (Nat.zero_le _), ih]

theorem nested.readArguments {n : Nat} (h : n + 1 ≤ maxNesting) :
    Model.readArguments (nested n).compact = some (nested n) := by
  have hblank : (nested n).compact.isAllBlank = false := by
    cases n <;> exact isAllBlank_compact_obj _
  rw [Model.readArguments, hblank, if_neg Bool.false_ne_true]
  refine read?_of_plain ((nested.plain n).of_height_le ?_)
  rwa [nested.height_tree]

/-- A call whose arguments just fit into the line is read back. -/
theorem nested.recalled_fitting :
    let t := Turn.toolCall "c1" "f" (nested 124) begun.createdAt
    Model.readArguments (nested 124).compact = some (nested 124) ∧
      ∃ y, read? (text begun ++ (line t.toJson ++ "")) = some y ∧ y.transcript = [t] := by
  intro t
  have hread := nested.readArguments (n := 124) (by decide)
  have hrequested : (∃ y, read? (text begun ++ (line t.toJson ++ "")) = some y ∧ _) ∧
      (recalled t = [t] ↔ _) ∧ _ :=
    read?_requested hread (nested.plain 124).exact (read?_text begun.storable)
      (closed_text begun.storable) ""
  obtain ⟨⟨y, hy, -, htranscript⟩, hiff, -⟩ := hrequested
  have hrecalled : recalled t = [t] :=
    hiff.2 ⟨(nested.height_tree 124).le, begun.storable.createdAt⟩
  rw [hrecalled] at htranscript
  exact ⟨hread, y, hy, htranscript⟩

/-- A call whose arguments nest one level deeper is accepted and stored, and is not there any more
when the file is read. -/
theorem nested.lost :
    let t := Turn.toolCall "c1" "f" (nested 125) begun.createdAt
    Model.readArguments (nested 125).compact = some (nested 125) ∧ (nested 125).Exact ∧
      ∃ y, read? (text begun ++ (line t.toJson ++ "")) = some y ∧ y.transcript = [] := by
  intro t
  have hheight := nested.height_tree 125
  have hplain : Plain maxNesting (nested 125) :=
    (nested.plain 125).of_height_le (hheight.trans_le (by decide))
  obtain ⟨y, hy, -, htranscript⟩ := read?_append_line (t := t) (exact_toolCall hplain.exact)
    (read?_text begun.storable) (closed_text begun.storable) ""
  have hrecalled : (recalled t = [t] ↔ _) ∧ _ := recalled_toolCall hplain
  rw [hrecalled.2 (hheight ▸ Nat.lt_succ_self argumentDepth)] at htranscript
  exact ⟨nested.readArguments (by decide), hplain.exact, y, hy, htranscript⟩

end SessionFile

end Parley
