import Parley.Proofs.Model.Chunks
import Parley.Proofs.Text.Lines

/-!
# Events as they are written

An event is written as two lines, its name and its data, and an empty line that ends it.  If
neither has a line feed in it, written events are cut apart again at their ends (`cut_chars`), and
the lines of each hold just that event (`Event.ofChars_body`).  So a decoder that is fed written
events is told these events (`feed_chars`).
-/

namespace Parley.Model.EventStream

/-! ## The lines of an event -/

/-- A line that says something after a label. -/
def lineOf (label said : String) : List Char := label.toList ++ said.toList

theorem labelled?_lineOf (label said : String) :
    labelled? label (lineOf label said) = some said.toList := by
  rw [labelled?, lineOf, if_pos (List.isPrefixOf_iff_prefix.2 (List.prefix_append _ _)),
    ← String.length_toList, List.drop_left]

theorem labelled?_event_data (said : String) :
    labelled? "event: " (lineOf "data: " said) = none := by
  simp [labelled?, lineOf]

theorem labelled?_data_event (said : String) :
    labelled? "data: " (lineOf "event: " said) = none := by
  simp [labelled?, lineOf]

namespace Event

/-- The two lines of an event. -/
def body (e : Event) : List Char := lineOf "event: " e.name ++ '\n' :: lineOf "data: " e.data

/-- An event as it is written: its lines, and the empty line that ends it. -/
def chars (e : Event) : List Char := e.body ++ ['\n', '\n']

/-- Whether what an event says can be written in its two lines. -/
structure Fits (e : Event) : Prop where
  name : '\n' ∉ e.name.toList
  noReturn : e.name.toList.getLast? ≠ some '\r'
  data : '\n' ∉ e.data.toList

variable {e : Event}

theorem Fits.feed_not_mem_nameLine (h : e.Fits) : '\n' ∉ lineOf "event: " e.name := by
  simp [lineOf, h.name]

theorem Fits.feed_not_mem_dataLine (h : e.Fits) : '\n' ∉ lineOf "data: " e.data := by
  simp [lineOf, h.data]

theorem Fits.getLast?_nameLine (h : e.Fits) :
    (lineOf "event: " e.name).getLast? ≠ some '\r' := by
  have hlast := h.noReturn
  rw [lineOf, List.getLast?_append]
  cases hname : e.name.toList.getLast? with
  | none => simp
  | some c =>
    rw [hname] at hlast
    simpa using hlast

theorem head?_dataLine (said : String) : (lineOf "data: " said).head? = some 'd' := by
  simp [lineOf]

/-- **The lines of an event hold the event.** -/
theorem ofChars_body (h : e.Fits) : ofChars e.body = e := by
  have hdata : (lineOf "data: " e.data).isEmpty = false := by
    simp [lineOf]
  have hlines : Text.lines e.body = [lineOf "event: " e.name, lineOf "data: " e.data] := by
    rw [body, Text.lines_feed, Text.pieces_of_no_feed h.feed_not_mem_nameLine, List.map_singleton,
      Text.dropReturn, if_neg h.getLast?_nameLine, Text.lines_of_no_feed h.feed_not_mem_dataLine,
      hdata]
    rfl
  rw [ofChars, hlines]
  simp only [lastLabelled, List.filterMap_cons, labelled?_lineOf, labelled?_event_data,
    labelled?_data_event, List.filterMap_nil, List.getLastD_cons, List.getLastD_nil,
    String.ofList_toList]

end Event

/-! ## Cutting written events apart -/

/-- Text without a feed belongs to the event that follows. -/
theorem cut_line {line rest event : List Char} {events : List (List Char)} {tail : List Char}
    (hline : '\n' ∉ line) (h : cut rest = (event :: events, tail)) :
    cut (line ++ rest) = ((line ++ event) :: events, tail) := by
  induction line with
  | nil => exact h
  | cons c line ih =>
    have hc : c ≠ '\n' := fun hc => hline (hc ▸ List.mem_cons_self)
    rw [List.cons_append, cut_cons fun _ heq => absurd heq hc,
      ih fun hmem => hline (List.mem_cons_of_mem _ hmem)]
    rfl

theorem cut_chars_append {e : Event} (h : e.Fits) (rest : List Char) :
    cut (e.chars ++ rest) = (e.body :: (cut rest).1, (cut rest).2) := by
  have hend : cut ('\n' :: '\n' :: rest) = ([] :: (cut rest).1, (cut rest).2) := by
    rw [cut]
  have hdata := cut_line h.feed_not_mem_dataLine hend
  rw [List.append_nil] at hdata
  have hlines : cut ('\n' :: (lineOf "data: " e.data ++ '\n' :: '\n' :: rest)) =
      (('\n' :: lineOf "data: " e.data) :: (cut rest).1, (cut rest).2) := by
    rw [cut_cons, hdata]
    intro more _ heq
    have hhead := congrArg List.head? heq
    rw [List.head?_append, Event.head?_dataLine] at hhead
    simp at hhead
  have hbody := cut_line h.feed_not_mem_nameLine hlines
  rwa [Event.chars, Event.body, List.append_assoc, List.append_assoc, List.cons_append]

/-- **Written events are cut apart again.** -/
theorem cut_chars {es : List Event} (h : ∀ e ∈ es, e.Fits) :
    cut (es.flatMap Event.chars) = (es.map Event.body, []) := by
  induction es with
  | nil => rfl
  | cons e es ih =>
    obtain ⟨he, hes⟩ := List.forall_mem_cons.1 h
    rw [List.flatMap_cons, cut_chars_append he, ih hes, List.map_cons]

/-- What written events say. -/
theorem feed_chars {es : List Event} (h : ∀ e ∈ es, e.Fits) :
    ({} : Decoder).feed (es.flatMap Event.chars) = ({} : Decoder).events es := by
  have hread : (es.map Event.body).map Event.ofChars = es := by
    rw [List.map_map]
    exact (List.map_congr_left fun e he => Event.ofChars_body (h e he)).trans (List.map_id es)
  rw [Decoder.feed, List.nil_append, cut_chars h]
  exact congrArg _ hread

end Parley.Model.EventStream
