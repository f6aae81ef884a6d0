import Parley.Model.EventStream
import Parley.Proofs.Text.Utf8

/-!
# How an answer is cut into chunks

The network hands over the body of an answer in chunks, and where it cuts is nobody's choice.  A
decoder keeps the text that no empty line has ended yet, so a cut inside an event, or inside the
empty line that ends it, is not noticed: feeding two texts is feeding both at once
(`Decoder.feed_append`), and what a body says depends on the text that its chunks are read as and
on nothing else (`items_whole`).

The chunks are read as text one by one, though.  Of a character that is cut in two neither half is
one, and the text that is read is another than the text that was sent.  So an answer says the same
however it is cut between its characters (`items_of_pieces`), and need not where a cut goes
through one (`not_forall_items_eq`).
-/

namespace Parley.Model.EventStream

open Text Text.Lossy

/-! ## Cutting at empty lines -/

/-- A character that does not begin an empty line is put before what follows it. -/
theorem cut_cons {c : Char} {rest : List Char}
    (h : ∀ more, c = '\n' → rest = '\n' :: more → False) :
    cut (c :: rest) =
      match cut rest with
      | (event :: events, tail) => ((c :: event) :: events, tail)
      | ([], tail) => ([], c :: tail) :=
  cut.eq_3 c rest h

theorem snd_cut_of_fst_eq_nil {text : List Char} (h : (cut text).1 = []) :
    (cut text).2 = text := by
  fun_induction cut text with
  | case1 => rfl
  | case2 rest events tail hrest ih => cases h
  | case3 c rest hne event events tail hrest ih => cases h
  | case4 c rest hne tail hrest ih =>
    rw [hrest] at ih
    exact congrArg (c :: ·) (ih rfl)

/-- A text is cut the same if its first part is cut first and the rest of that goes on with the
second part. -/
theorem cut_append (front back : List Char) :
    cut (front ++ back) =
      ((cut front).1 ++ (cut ((cut front).2 ++ back)).1, (cut ((cut front).2 ++ back)).2) := by
  fun_induction cut front with
  | case1 => rfl
  | case2 rest events tail hrest ih =>
    rw [hrest] at ih
    rw [List.cons_append, List.cons_append, cut, ih]
    rfl
  | case3 c rest hne event events tail hrest ih =>
    rw [hrest] at ih
    have hne' : ∀ more, c = '\n' → rest ++ back = '\n' :: more → False := by
      intro more hc happend
      cases rest with
      | nil => cases hrest
      | cons d rest => exact hne rest hc (by rw [(List.cons.inj happend).1])
    rw [List.cons_append, cut_cons hne', ih]
    rfl
  | case4 c rest hne tail hrest ih =>
    have htail : tail = rest := by
      have h := snd_cut_of_fst_eq_nil (congrArg Prod.fst hrest)
      rwa [hrest] at h
    rw [htail, List.nil_append]

/-! ## What a decoder keeps -/

namespace Decoder

/-- What an event says does not depend on the text that is kept. -/
theorem event_buffer (d : Decoder) (e : Event) (text : List Char) :
    { d with buffer := text }.event e =
      ((d.event e).1, { (d.event e).2 with buffer := text }) := by
  unfold event
  split_ifs
  all_goals first | rfl | (split <;> rfl)

theorem events_buffer (d : Decoder) (es : List Event) (text : List Char) :
    { d with buffer := text }.events es =
      ((d.events es).1, { (d.events es).2 with buffer := text }) := by
  induction es generalizing d with
  | nil => rfl
  | cons e es ih => simp only [events, event_buffer, ih]

theorem events_append (d : Decoder) (es es' : List Event) :
    d.events (es ++ es') =
      ((d.events es).1 ++ ((d.events es).2.events es').1, ((d.events es).2.events es').2) := by
  induction es generalizing d with
  | nil => rfl
  | cons e es ih => simp only [List.cons_append, events, ih, List.append_assoc]

/-- What some text says to a decoder that kept none of it. -/
theorem feed_eq (d : Decoder) (text : List Char) :
    d.feed text =
      ((d.events ((cut (d.buffer ++ text)).1.map Event.ofChars)).1,
        { (d.events ((cut (d.buffer ++ text)).1.map Event.ofChars)).2 with
          buffer := (cut (d.buffer ++ text)).2 }) :=
  events_buffer d _ _

/-- **Feeding two texts, one after the other, is feeding both at once.** -/
theorem feed_append (d : Decoder) (front back : List Char) :
    d.feed (front ++ back) =
      ((d.feed front).1 ++ ((d.feed front).2.feed back).1, ((d.feed front).2.feed back).2) := by
  simp only [feed_eq, ← List.append_assoc, cut_append (d.buffer ++ front) back, List.map_append,
    events_append, events_buffer]

end Decoder

/-! ## What a body says -/

/-- What arrives of a body that comes in some pieces and is not broken off. -/
def whole (pieces : List (List UInt8)) : List Arrival := pieces.map .bytes

theorem itemsFrom_whole (d : Decoder) (piece : List UInt8) (pieces : List (List UInt8)) :
    itemsFrom d (whole (piece :: pieces)) = (d.feed (decodeAll (piece :: pieces))).1.map .ok := by
  induction pieces generalizing d piece with
  | nil => simp [whole, itemsFrom, decodeAll]
  | cons next pieces ih =>
    rw [whole, List.map_cons, itemsFrom, decodeAll_cons, Decoder.feed_append, List.map_append]
    exact congrArg _ (ih _ next)

/-- **A body says what the text that its pieces are read as says**, all at once. -/
theorem items_whole (pieces : List (List UInt8)) :
    items (whole pieces) = (({} : Decoder).feed (decodeAll pieces)).1.map .ok := by
  cases pieces with
  | nil => rfl
  | cons piece pieces => exact itemsFrom_whole {} piece pieces

/-- **An answer says the same however it is cut between its characters.**  Whatever the pieces,
it says what the text says that they are read as; and that is the text that was sent just when
every piece is a text. -/
theorem items_of_pieces {text : String} {pieces pieces' : List (List UInt8)}
    (h : pieces.flatten = text.toUTF8.data.toList)
    (h' : pieces'.flatten = text.toUTF8.data.toList) :
    ((∀ piece ∈ pieces, IsText piece) → (∀ piece ∈ pieces', IsText piece) →
      items (whole pieces) = items (whole pieces')) ∧
    items (whole pieces) = items (whole [utf8 (decodeAll pieces)]) ∧
    (decodeAll pieces = text.toList ↔ ∀ piece ∈ pieces, IsText piece) := by
  rw [data_toUTF8] at h h'
  refine ⟨fun hpieces hpieces' => ?_, ?_, decodeAll_eq_iff h⟩
  · rw [items_whole, items_whole, (decodeAll_eq_iff h).2 hpieces, (decodeAll_eq_iff h').2 hpieces']
  · have hwhole : decodeAll [utf8 (decodeAll pieces)] = decodeAll pieces := by
      rw [decodeAll_cons, decode_utf8]
      exact List.append_nil _
    rw [items_whole, items_whole, hwhole]

/-- An answer that says one character of two bytes, the bytes 71 and 72 of it. -/
def accented : String :=
  "event: content_block_delta\n" ++
    "data: \x7b\"delta\":\x7b\"type\":\"text_delta\",\"text\":\"é\"\x7d\x7d\n\n"

/-- An answer cut in two. -/
def halves (text : String) (n : Nat) : List (List UInt8) :=
  [text.toUTF8.data.toList.take n, text.toUTF8.data.toList.drop n]

theorem flatten_halves (text : String) (n : Nat) :
    (halves text n).flatten = text.toUTF8.data.toList := by
  rw [halves, List.flatten_cons, List.flatten_singleton, List.take_append_drop]

/-- Cut in the middle of a label and right after the character, it says the same. -/
theorem items_of_accented :
    (cutAfter accented 3).flatten = accented.toUTF8.data.toList ∧
    (cutAfter accented 72).flatten = accented.toUTF8.data.toList ∧
    (∀ piece ∈ cutAfter accented 3, IsText piece) ∧
    (∀ piece ∈ cutAfter accented 72, IsText piece) ∧
    items (whole (cutAfter accented 3)) = items (whole (cutAfter accented 72)) := by
  have hlabel := flatten_cutAfter accented 3
  have hcharacter := flatten_cutAfter accented 72
  have htexts := isText_cutAfter accented 3
  have htexts' := isText_cutAfter accented 72
  exact ⟨hlabel, hcharacter, htexts, htexts', (items_of_pieces hlabel hcharacter).1 htexts htexts'⟩

/-- **A cut through a character changes what an answer says**: it is read as two replacement
characters. -/
theorem not_forall_items_eq :
    ¬ ∀ (text : String) (pieces pieces' : List (List UInt8)),
      pieces.flatten = text.toUTF8.data.toList → pieces'.flatten = text.toUTF8.data.toList →
        items (whole pieces) = items (whole pieces') := by
  intro h
  have heq := h accented (halves accented 72) (halves accented 73) (flatten_halves accented 72)
    (flatten_halves accented 73)
  have hcut : items (whole (halves accented 72)) = [.ok (.text "\ufffd\ufffd")] := by
    decide +kernel
  have hwhole : items (whole (halves accented 73)) = [.ok (.text "é")] := by
    decide +kernel
  rw [hcut, hwhole] at heq
  simp at heq

end Parley.Model.EventStream
