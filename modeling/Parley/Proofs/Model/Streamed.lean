import Parley.Proofs.Json.Order
import Parley.Proofs.Model.Events

/-!
# A message that is streamed

The service sends a message as events: one that starts it, a few for each of its blocks, one that
says why it stopped, and one that ends it.  Decoded and folded, the events make the message again
(`collect_transmission`), whatever it says and wherever the chunks are cut between characters.

Three machines have to agree on what is open.  The text is cut into events at empty lines, which
no event holds, for a written value has no line feed.  The decoder keeps which call is open
between the start of a block and its end; and so does the accumulator, which moreover keeps the
arguments.  Between blocks nothing is open in either, so a block is taken by itself:
`events_part` says what the decoder makes of its events, and `pushAll_part` what the accumulator
makes of that.
-/

namespace Parley.Model.EventStream

open Json

/-! ## Events that hold a value -/

section Values

variable (o : FieldOrder)

/-- An event whose data are an object that also names its type. -/
def event (name : String) (fields : List (String × Json)) : Event :=
  ⟨name, (o.object (("type", .str name) :: fields)).compact⟩

variable {o} {name : String} {fields : List (String × Json)}

theorem exact_data (h : ∀ f ∈ fields, f.2.Exact) :
    (o.object (("type", .str name) :: fields)).Exact :=
  o.exact_object (List.forall_mem_cons.2 ⟨.str _, h⟩)

theorem fits_event (hname : '\n' ∉ name.toList) (hreturn : name.toList.getLast? ≠ some '\r')
    (h : ∀ f ∈ fields, f.2.Exact) : (event o name fields).Fits where
  name := hname
  noReturn := hreturn
  data := by
    rw [event, compact, String.toList_ofList]
    exact feed_not_mem_render (exact_data h)

theorem isEmpty_data (name : String) (fields : List (String × Json)) :
    (event o name fields).data.isEmpty = false := by
  rw [String.isEmpty_eq_false_iff, event, compact, FieldOrder.object, render, Ne,
    String.ofList_eq_empty_iff]
  exact List.cons_ne_nil _ _

/-- What a reader finds in the data of an event. -/
theorem readText_event {α : Type} (h : ∀ f ∈ fields, f.2.Exact) (d : Json.Decoder α) :
    d.readText (event o name fields).data =
      d (.streamed maxNesting) (o.object (("type", .str name) :: fields)).tree :=
  readText_compact (exact_data h) d

end Values

/-! ## The events of a message -/

/-- A block of a message, in the pieces that it is sent in. -/
inductive Part where
  | text (first : String) (more : List String)
  | call (id name : String) (pieces : List String)

/-- A message in the parts that it is sent in. -/
structure Transmission where
  parts : List Part
  stopReason : String
  input : UInt32
  output : UInt32
  /-- The tokens of the answer that are counted when it starts. -/
  early : UInt32 := 0

section Writing

variable (o : FieldOrder)

/-- The event that starts a block. -/
def startBlock (index : Nat) (block : List (String × Json)) : Event :=
  event o "content_block_start" [("index", ofNat index), ("content_block", o.object block)]

/-- An event that continues a block. -/
def continueBlock (index : Nat) (delta : List (String × Json)) : Event :=
  event o "content_block_delta" [("index", ofNat index), ("delta", o.object delta)]

/-- The event that ends a block. -/
def endBlock (index : Nat) : Event := event o "content_block_stop" [("index", ofNat index)]

/-- A further piece of a block, of a type that has it in a field. -/
def piece (type field : String) (index : Nat) (text : String) : Event :=
  continueBlock o index [("type", str type), (field, str text)]

/-- A further piece of text. -/
def textPiece : Nat → String → Event := piece o "text_delta" "text"

/-- A further piece of arguments. -/
def argumentPiece : Nat → String → Event := piece o "input_json_delta" "partial_json"

/-- The events of a block. -/
def Part.events (index : Nat) : Part → List Event
  | .text first more =>
    startBlock o index [("type", str "text"), ("text", str first)] ::
      (more.map (textPiece o index) ++ [endBlock o index])
  | .call id name pieces =>
    startBlock o index
        [("type", str "tool_use"), ("id", str id), ("name", str name), ("input", o.object [])] ::
      (pieces.map (argumentPiece o index) ++ [endBlock o index])

/-- The events of some blocks, which are numbered. -/
def partsEvents : Nat → List Part → List Event
  | _, [] => []
  | index, part :: rest => part.events o index ++ partsEvents (index + 1) rest

namespace Transmission

/-- The event that starts a message. -/
def opening (m : Transmission) : Event :=
  event o "message_start"
    [("message", o.object
      [("usage", o.object
        [("input_tokens", ofNat m.input.toNat), ("output_tokens", ofNat m.early.toNat)])])]

/-- The event that says why a message stopped. -/
def stopping (m : Transmission) : Event :=
  event o "message_delta"
    [("delta", o.object [("stop_reason", str m.stopReason)]),
      ("usage", o.object [("output_tokens", ofNat m.output.toNat)])]

/-- The event that ends a message. -/
def ending : Event := event o "message_stop" []

/-- The events of a message. -/
def events (m : Transmission) : List Event :=
  m.opening o :: (partsEvents o 0 m.parts ++ [m.stopping o, ending o])

/-- A message as it is sent. -/
def text (m : Transmission) : String := String.ofList ((m.events o).flatMap Event.chars)

end Transmission

end Writing

/-! ## Reading the data

Each kind of event has its reader, and each of these finds in written data what was put there,
whatever the order of fields. -/

section Reading

variable {o : FieldOrder} {a b : Access}

theorem decode_word32 (a : Access) (n : UInt32) :
    Decoder.word32 a (ofNat n.toNat).tree = some n.toNat := by
  have hlt : n.toNat < UInt32.size := n.toNat_lt
  have hmax : UInt32.size ≤ Decimal.maxWord := by decide
  have hvalue : (Decimal.Literal.ofInt n.toNat).value? = some (.int n.toNat) :=
    Decimal.value?_ofInt (by omega) (by omega)
  rw [ofNat, tree, Decoder.word32, Decoder.natUpTo, hvalue]
  dsimp only
  rw [if_pos (by omega), Int.toNat_natCast]

theorem decode_counts (ha : a.enter = some b) (input output : UInt32) :
    partialUsage a (o.object
      [("input_tokens", ofNat input.toNat), ("output_tokens", ofNat output.toNat)]).tree =
      some ⟨input.toNat, output.toNat⟩ := by
  refine bind_record (o.perm _) ha (by simp) fun r h => ?_
  rw [h.orElse (by simp) rfl, h.orElse (by simp) rfl, decode_word32, decode_word32]
  rfl

theorem decode_output (ha : a.enter = some b) (output : UInt32) :
    partialUsage a (o.object [("output_tokens", ofNat output.toNat)]).tree =
      some ⟨0, output.toNat⟩ := by
  refine bind_record (o.perm _) ha (by simp) fun r h => ?_
  rw [h.orElse_absent (by simp) rfl, h.orElse (by simp) rfl, decode_word32]
  rfl

theorem orNull_object {α : Type} {d : Json.Decoder α} {fields : List (String × Json)} {v : α}
    (h : d a (o.object fields).tree = some v) :
    d.orNull a (o.object fields).tree = some (some v) := by
  rw [FieldOrder.object, tree] at h ⊢
  rw [Decoder.orNull, h]
  · rfl
  · rintro ⟨⟩

theorem readText_opening (m : Transmission) :
    startUsage.readText (m.opening o).data = some (some ⟨m.input.toNat, m.early.toNat⟩) := by
  rw [Transmission.opening, readText_event (by simp)]
  refine bind_record (o.perm _) rfl (by simp) fun r hmessage => ?_
  rw [hmessage.required (by simp) rfl]
  refine bind_record (o.perm _) rfl (by simp) fun r husage => ?_
  rw [husage.optional (by simp) rfl, orNull_object (decode_counts rfl m.input m.early)]

theorem readText_stopping (m : Transmission) :
    stopping.readText (m.stopping o).data =
      some (some m.stopReason, some ⟨0, m.output.toNat⟩) := by
  rw [Transmission.stopping, readText_event (by simp)]
  refine bind_record (o.perm _) rfl (by simp) fun r hfields => ?_
  have hreason : r.required "delta" (fun a t => do
      let r ← record? ["stop_reason"] a t
      r.optional "stop_reason" Decoder.text) = some (some m.stopReason) := by
    rw [hfields.required (by simp) rfl]
    refine bind_record (o.perm _) rfl (by simp) fun r hdelta => ?_
    rw [hdelta.optional (by simp) rfl]
    rfl
  rw [hreason, hfields.optional (by simp) rfl, orNull_object (decode_output rfl m.output)]
  rfl

theorem admits_object_nil (depth : Nat) :
    (Access.streamed (depth + 1)).admits (o.object []).tree := by
  have hnil : o.arrange [] = [] := List.perm_nil.1 (o.perm [])
  have hplain : Plain (depth + 1) (.obj []) := .obj nofun .nil
  rw [FieldOrder.object, hnil]
  exact admits_tree hplain

theorem readText_startText (index : Nat) (first : String) :
    opening.readText (startBlock o index [("type", str "text"), ("text", str first)]).data =
      some (.text first) := by
  rw [startBlock, readText_event (by simp)]
  refine bind_record (o.perm _) rfl (by simp) fun r hfields => ?_
  rw [hfields.required (by simp) rfl]
  refine taggedOr_of_perm (o.perm _) rfl (by simp) (by simp [admits_str]) rfl
    fun content hcontent => ?_
  refine bind_record hcontent rfl (by simp) fun r htext => ?_
  rw [htext.orElse (by simp) rfl]
  rfl

theorem readText_startCall (index : Nat) (id name : String) :
    opening.readText (startBlock o index
      [("type", str "tool_use"), ("id", str id), ("name", str name), ("input", o.object [])]).data =
      some (.call id name) := by
  rw [startBlock, readText_event (by simp)]
  refine bind_record (o.perm _) rfl (by simp) fun r hfields => ?_
  rw [hfields.required (by simp) rfl]
  refine taggedOr_of_perm (o.perm _) rfl (by simp) (by simp [admits_str, admits_object_nil]) rfl
    fun content hcontent => ?_
  refine bind_record hcontent rfl (by simp) fun r hcall => ?_
  rw [hcall.required (by simp) rfl, hcall.required (by simp) rfl]
  rfl

theorem readText_piece {type field : String} {say : String → Continuation}
    (hreader : pieceReaders.lookup type = some (pieceIn field say)) (hfield : field ≠ "type")
    (index : Nat) (text : String) :
    continuation.readText (piece o type field index text).data = some (say text) := by
  rw [piece, continueBlock, readText_event (by simp)]
  refine bind_record (o.perm _) rfl (by simp) fun r hfields => ?_
  rw [hfields.required (by simp) rfl]
  refine taggedOr_of_perm (o.perm _) rfl (by simpa using hfield) (by simp [admits_str]) hreader
    fun content hcontent => ?_
  refine bind_record hcontent rfl (by simp) fun r hpiece => ?_
  have hfound : lookup field [(field, str text)] = some (str text) := by simp [lookup]
  rw [hpiece.required (by simp) hfound]
  rfl

end Reading

/-! ## What a decoder makes of a message -/

/-- The pieces of a block as they are handed on; a first text that is empty is not. -/
def Part.deltas : Part → List Delta
  | .text first more => (if first.isEmpty then [] else [.text first]) ++ more.map .text
  | .call id name pieces => .callStart id name :: (pieces.map (.callArguments id) ++ [.callEnd id])

section Decoding

variable {o : FieldOrder} (d : Decoder) (index : Nat)

theorem event_startText (first : String) :
    d.event (startBlock o index [("type", str "text"), ("text", str first)]) =
      (if first.isEmpty then [] else [.text first], d) := by
  have hname : (startBlock o index [("type", str "text"), ("text", str first)]).name =
      "content_block_start" := rfl
  rw [Decoder.event, readText_startText, hname, startBlock, isEmpty_data]
  simp

theorem event_startCall (id name : String) :
    d.event (startBlock o index [("type", str "tool_use"), ("id", str id), ("name", str name),
      ("input", o.object [])]) = ([.callStart id name], { d with call := some id }) := by
  have hname : (startBlock o index [("type", str "tool_use"), ("id", str id), ("name", str name),
      ("input", o.object [])]).name = "content_block_start" := rfl
  rw [Decoder.event, readText_startCall, hname, startBlock, isEmpty_data]
  simp

theorem event_textPiece (text : String) : d.event (textPiece o index text) = ([.text text], d) := by
  have hname : (textPiece o index text).name = "content_block_delta" := rfl
  rw [Decoder.event, hname, textPiece, readText_piece rfl (by decide), piece, continueBlock,
    isEmpty_data]
  simp

theorem event_argumentPiece (text : String) :
    d.event (argumentPiece o index text) =
      (d.call.toList.map fun id => .callArguments id text, d) := by
  have hname : (argumentPiece o index text).name = "content_block_delta" := rfl
  rw [Decoder.event, hname, argumentPiece, readText_piece rfl (by decide), piece, continueBlock,
    isEmpty_data]
  simp

theorem event_endBlock :
    d.event (endBlock o index) = (d.call.toList.map .callEnd, { d with call := none }) := by
  have hname : (endBlock o index).name = "content_block_stop" := rfl
  rw [Decoder.event, hname, endBlock, isEmpty_data]
  simp

/-- Events that change nothing are handed on one by one. -/
theorem events_map {e : String → Event} {say : String → Delta}
    (h : ∀ text, d.event (e text) = ([say text], d)) (texts : List String) :
    d.events (texts.map e) = (texts.map say, d) := by
  induction texts with
  | nil => rfl
  | cons text texts ih => simp [Decoder.events, h, ih]

/-- **A block leaves nothing open**, and its pieces are handed on in order. -/
theorem events_part (h : d.call = none) (part : Part) :
    d.events (part.events o index) = (part.deltas, d) := by
  have hclosed : { d with call := none } = d := by rw [← h]
  cases part with
  | text first more =>
    rw [Part.events, Decoder.events, event_startText]
    dsimp only
    rw [Decoder.events_append, events_map _ (event_textPiece _ index)]
    simp [Decoder.events, event_endBlock, h, hclosed, Part.deltas]
  | call id name pieces =>
    rw [Part.events, Decoder.events, event_startCall]
    dsimp only
    rw [Decoder.events_append, events_map _ (event_argumentPiece _ index)]
    simp [Decoder.events, event_endBlock, hclosed, Part.deltas]

theorem events_parts (h : d.call = none) (parts : List Part) :
    d.events (partsEvents o index parts) = (parts.flatMap Part.deltas, d) := by
  induction parts generalizing index with
  | nil => rfl
  | cons part parts ih =>
    rw [partsEvents, Decoder.events_append, events_part d index h, ih, List.flatMap_cons]

theorem event_opening (m : Transmission) :
    d.event (m.opening o) = ([], { d with usage := { d.usage with input := m.input.toNat } }) := by
  have hname : (m.opening o).name = "message_start" := rfl
  rw [Decoder.event, readText_opening, hname, Transmission.opening, isEmpty_data]
  simp

theorem event_stopping (m : Transmission) :
    d.event (m.stopping o) = ([], { d with
      stopReason := some m.stopReason, usage := { d.usage with output := m.output.toNat } }) := by
  have hname : (m.stopping o).name = "message_delta" := rfl
  rw [Decoder.event, readText_stopping, hname, Transmission.stopping, isEmpty_data]
  simp

theorem event_ending :
    d.event (Transmission.ending o) =
      ([.done (some (d.stopReason.getD "end_turn")) (some d.usage)],
        { d with stopReason := none }) := by
  have hname : (Transmission.ending o).name = "message_stop" := rfl
  rw [Decoder.event, hname, Transmission.ending, isEmpty_data]
  simp

/-- **The pieces of a message are handed on in order**, and then its end. -/
theorem events_transmission (m : Transmission) :
    (({} : Decoder).events (m.events o)).1 =
      m.parts.flatMap Part.deltas ++
        [.done (some m.stopReason) (some ⟨m.input.toNat, m.output.toNat⟩)] := by
  rw [Transmission.events, Decoder.events, event_opening]
  dsimp only
  rw [Decoder.events_append, events_parts _ 0 rfl]
  simp [Decoder.events, event_stopping, event_ending]

end Decoding

/-! ## What an accumulator makes of it -/

/-- The texts of a block. -/
def Part.texts : Part → List String
  | .text first more => first :: more
  | .call .. => []

/-- The call that a block holds; its arguments are what its pieces make together. -/
def Part.call? : Part → Option OpenCall
  | .text .. => none
  | .call id name pieces => some ⟨id, name, String.join pieces⟩

theorem pushAll_append (a : Accumulator) (front back : List Delta) :
    a.pushAll (front ++ back) = (a.pushAll front).pushAll back := List.foldl_append

theorem pushAll_texts (a : Accumulator) (pieces : List String) :
    a.pushAll (pieces.map .text) = { a with text := a.text ++ String.join pieces } := by
  induction pieces generalizing a with
  | nil => simp [Accumulator.pushAll, String.join_nil]
  | cons piece pieces ih =>
    have hpiece : a.pushAll ((piece :: pieces).map .text) =
        (a.push (.text piece)).pushAll (pieces.map .text) := rfl
    rw [hpiece, ih, String.join_cons, ← String.append_assoc]
    rfl

theorem pushAll_arguments (a : Accumulator) (id : String) {c : OpenCall} (h : a.current = some c)
    (pieces : List String) :
    a.pushAll (pieces.map (.callArguments id)) =
      { a with current := some { c with arguments := c.arguments ++ String.join pieces } } := by
  induction pieces generalizing a c with
  | nil => simp [Accumulator.pushAll, String.join_nil, ← h]
  | cons piece pieces ih =>
    have hpiece : a.pushAll ((piece :: pieces).map (.callArguments id)) =
        (a.push (.callArguments id piece)).pushAll (pieces.map (.callArguments id)) := rfl
    have hcurrent : (a.push (.callArguments id piece)).current =
        some { c with arguments := c.arguments ++ piece } := by
      rw [Accumulator.push, h]
      rfl
    rw [hpiece, ih _ hcurrent, String.join_cons, ← String.append_assoc]
    rfl

/-- **A block adds its texts and its call**, and leaves nothing open. -/
theorem pushAll_part (a : Accumulator) (h : a.current = none) (part : Part) :
    a.pushAll part.deltas =
      { a with
        text := a.text ++ String.join part.texts
        closed := a.closed ++ part.call?.toList } := by
  cases part with
  | text first more =>
    have hdeltas : a.pushAll (Part.text first more).deltas =
        a.pushAll ((first :: more).map .text) := by
      by_cases hfirst : first.isEmpty
      · have hempty : first = "" := String.isEmpty_iff.1 hfirst
        simp [Part.deltas, hempty, Accumulator.pushAll, Accumulator.push]
      · simp [Part.deltas, hfirst]
    rw [hdeltas, pushAll_texts]
    simp [Part.texts, Part.call?]
  | call id name pieces =>
    have hopened : a.push (.callStart id name) =
        { a with current := some ⟨id, name, ""⟩ } := by
      simp [Accumulator.push, Accumulator.calls, h]
    have hdeltas : a.pushAll (Part.call id name pieces).deltas =
        ((a.push (.callStart id name)).pushAll (pieces.map (.callArguments id))).push
          (.callEnd id) := by
      rw [Part.deltas, ← List.cons_append, pushAll_append]
      rfl
    rw [hdeltas, hopened, pushAll_arguments _ id rfl]
    simp [Part.texts, Part.call?, Accumulator.push, Accumulator.calls, h, String.join_nil]

theorem pushAll_parts (a : Accumulator) (h : a.current = none) (parts : List Part) :
    a.pushAll (parts.flatMap Part.deltas) =
      { a with
        text := a.text ++ String.join (parts.flatMap Part.texts)
        closed := a.closed ++ parts.filterMap Part.call? } := by
  induction parts generalizing a with
  | nil => simp [Accumulator.pushAll, String.join_nil]
  | cons part parts ih =>
    have hstep := ih (a.pushAll part.deltas) (by rw [pushAll_part a h]; exact h)
    rw [List.flatMap_cons, pushAll_append, hstep, pushAll_part a h]
    cases hcall : part.call? <;>
      simp [String.join_append, String.append_assoc, hcall]

theorem collectFrom_ok (a : Accumulator) (deltas : List Delta) :
    collectFrom a (deltas.map .ok) = (a.pushAll deltas).conclude := by
  induction deltas generalizing a with
  | nil => rfl
  | cons delta deltas ih => exact ih (a.push delta)

/-! ## The message again -/

/-- The call that a block holds, with the arguments that its pieces stand for: an empty object
when they say nothing, and `null` when they are no JSON. -/
def Part.toolCall? : Part → Option ToolCall
  | .text .. => none
  | .call id name pieces =>
    let arguments := String.join pieces
    some ⟨id, name,
      if arguments.isAllBlank then .obj [] else (Json.read? arguments).getD .null⟩

/-- The reply that a message is. -/
def Transmission.reply (m : Transmission) : Reply where
  text := String.join (m.parts.flatMap Part.texts)
  calls := m.parts.filterMap Part.toolCall?
  stopReason := some m.stopReason
  usage := some ⟨m.input.toNat, m.output.toNat⟩

theorem Part.map_toCall (part : Part) : part.call?.map OpenCall.toCall = part.toolCall? := by
  cases part with
  | text first more => rfl
  | call id name pieces =>
    rw [Part.call?, Part.toolCall?, Option.map_some, OpenCall.toCall, readArguments]
    split <;> rfl

/-! ### Its events can be written -/

section Fitting

variable (o : FieldOrder) (index : Nat)

theorem fits_startBlock {block : List (String × Json)} (h : ∀ f ∈ block, f.2.Exact) :
    (startBlock o index block).Fits :=
  fits_event (by decide) (by decide) (by simpa using o.exact_object h)

theorem fits_continueBlock {delta : List (String × Json)} (h : ∀ f ∈ delta, f.2.Exact) :
    (continueBlock o index delta).Fits :=
  fits_event (by decide) (by decide) (by simpa using o.exact_object h)

theorem fits_endBlock : (endBlock o index).Fits :=
  fits_event (by decide) (by decide) (by simp)

theorem fits_part (part : Part) : ∀ e ∈ part.events o index, e.Fits := by
  intro e he
  cases part with
  | text | call =>
    rw [Part.events, List.mem_cons, List.mem_append, List.mem_map, List.mem_singleton] at he
    rcases he with rfl | ⟨piece, -, rfl⟩ | rfl
    · exact fits_startBlock o index (by simp)
    · exact fits_continueBlock o index (by simp)
    · exact fits_endBlock o index

theorem fits_parts (parts : List Part) : ∀ e ∈ partsEvents o index parts, e.Fits := by
  induction parts generalizing index with
  | nil => nofun
  | cons part parts ih =>
    intro e he
    rcases List.mem_append.1 he with he | he
    · exact fits_part o index part e he
    · exact ih (index + 1) e he

theorem fits_events (m : Transmission) : ∀ e ∈ m.events o, e.Fits := by
  intro e he
  simp only [Transmission.events, List.mem_cons, List.mem_append, List.not_mem_nil, or_false] at he
  rcases he with rfl | he | rfl | rfl
  · exact fits_event (by decide) (by decide) (by simp)
  · exact fits_parts o 0 m.parts e he
  · exact fits_event (by decide) (by decide) (by simp)
  · exact fits_event (by decide) (by decide) (by simp)

end Fitting

/-- **A message that was sent in parts is read as the message.** -/
theorem collect_transmission (o : FieldOrder) (m : Transmission) {pieces : List (List UInt8)}
    (h : pieces.flatten = (m.text o).toUTF8.data.toList)
    (hcut : ∀ piece ∈ pieces, Text.IsText piece) :
    collect false (items (whole pieces)) = .ok m.reply := by
  have htext : Text.Lossy.decodeAll pieces = (m.events o).flatMap Event.chars := by
    rw [Text.data_toUTF8, Transmission.text, String.toList_ofList] at h
    exact (Text.Lossy.decodeAll_eq_iff h).2 hcut
  have hcalls : (m.parts.filterMap Part.call?).map OpenCall.toCall =
      m.parts.filterMap Part.toolCall? := by
    rw [List.map_filterMap]
    exact List.filterMap_congr fun part _ => part.map_toCall
  rw [collect, if_neg Bool.false_ne_true, items_whole, htext, feed_chars (fits_events o m),
    events_transmission, collectFrom_ok, pushAll_append, pushAll_parts {} rfl]
  simp [Accumulator.pushAll, Accumulator.push, Accumulator.conclude, Accumulator.finish,
    Accumulator.calls, hcalls, Transmission.reply]

/-- A text, and a call whose arguments come in two pieces. -/
def consultation : Transmission where
  parts := [.text "" ["Let me check."],
    .call "toolu_1" "session_manage" ["\x7b\"action\":", "\"list\"\x7d"]]
  stopReason := "tool_use"
  input := 12
  output := 30

/-- It is read as that, also when the fields of all objects are written in reverse and the stream
is cut in the middle of a label. -/
theorem collect_consultation :
    let o : FieldOrder := ⟨List.reverse, List.reverse_perm⟩
    let pieces := Text.cutAfter (consultation.text o) 3
    pieces.flatten = (consultation.text o).toUTF8.data.toList ∧
      (∀ piece ∈ pieces, Text.IsText piece) ∧
      collect false (items (whole pieces)) = .ok consultation.reply ∧
      consultation.reply.text = "Let me check." ∧
      consultation.reply.calls.map (fun c => (c.name, (c.arguments.field "action").str?)) =
        [("session_manage", some "list")] ∧
      consultation.reply.usage = some ⟨12, 30⟩ := by
  intro o pieces
  have hpieces := Text.flatten_cutAfter (consultation.text o) 3
  have hcut := Text.isText_cutAfter (consultation.text o) 3
  exact ⟨hpieces, hcut, collect_transmission o consultation hpieces hcut, by decide +kernel,
    by decide +kernel, by decide +kernel⟩

end Parley.Model.EventStream
