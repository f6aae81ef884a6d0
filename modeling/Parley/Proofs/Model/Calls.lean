import Parley.Proofs.Model.Chunks

/-!
# Calls are not mixed up

Two machines keep track of the call that is open: the decoder, which puts the id of a call on its
arguments and its end, and the accumulator, which looks at starts and ends only.  They go together
on every stream, also one whose events are missing, repeated, out of order or no events at all.

`Consistent` says which deltas may come while a call is open or none is.  A decoder says nothing
else (`consistent_event`, and so on up to `exists_consistent`), whatever arrives.  From consistent
deltas the accumulator makes the calls that can be read off them without any state
(`calls_pushAll`): one for each start, with the arguments that stand between it and the next start.
-/

namespace Parley.Model

/-! ## Deltas and the open call -/

namespace Delta

/-- The id of the call that a delta goes on with or ends. -/
def concerns? : Delta → Option String
  | callArguments id _ | callEnd id => some id
  | _ => none

/-- The text that a delta adds to the arguments of a call. -/
def argument? : Delta → Option String
  | callArguments _ said => some said
  | _ => none

/-- Whether a delta starts a call. -/
def isStart : Delta → Bool
  | callStart .. => true
  | _ => false

/-- Whether a delta ends a call. -/
def isEnd : Delta → Bool
  | callEnd _ => true
  | _ => false

theorem not_isEnd {d : Delta} (h : d.concerns? = none) : ¬ d.isEnd := by
  cases d with
  | callEnd => cases h
  | _ => exact Bool.false_ne_true

theorem argument?_eq_none {d : Delta} (h : d.concerns? = none) : d.argument? = none := by
  cases d with
  | callArguments => cases h
  | _ => rfl

/-- Deltas that may come while a call is open or none is, and the call that is open after them.
Arguments and an end are those of the open call. -/
inductive Consistent : Option String → List Delta → Option String → Prop where
  | nil (call : Option String) : Consistent call [] call
  | start (call : Option String) (id name : String) {rest : List Delta} {after : Option String}
    (h : Consistent (some id) rest after) : Consistent call (.callStart id name :: rest) after
  | arguments (id text : String) {rest : List Delta} {after : Option String}
    (h : Consistent (some id) rest after) :
    Consistent (some id) (.callArguments id text :: rest) after
  | stop (id : String) {rest : List Delta} {after : Option String}
    (h : Consistent none rest after) : Consistent (some id) (.callEnd id :: rest) after
  /-- Everything else is not about calls. -/
  | aside {d : Delta} (hcall : d.concerns? = none) (hstart : d.isStart = false)
    {call : Option String} {rest : List Delta} {after : Option String}
    (h : Consistent call rest after) : Consistent call (d :: rest) after

variable {a b c : Option String} {deltas more : List Delta}

theorem Consistent.append (h : Consistent a deltas b) (h' : Consistent b more c) :
    Consistent a (deltas ++ more) c := by
  induction h with
  | nil => exact h'
  | start call id name _ ih => exact .start call id name (ih h')
  | arguments id text _ ih => exact .arguments id text (ih h')
  | stop id _ ih => exact .stop id (ih h')
  | aside hcall hstart _ ih => exact .aside hcall hstart (ih h')

/-- The start of the call with an id is the last of some deltas, and no end follows it. -/
def OpenIn (id : String) (deltas : List Delta) : Prop :=
  ∃ before name between, deltas = before ++ .callStart id name :: between ∧
    ∀ d ∈ between, ¬ d.isStart ∧ ¬ d.isEnd

theorem OpenIn.cons {id : String} (h : OpenIn id deltas) (d : Delta) : OpenIn id (d :: deltas) := by
  obtain ⟨before, name, between, rfl, hbetween⟩ := h
  exact ⟨d :: before, name, between, rfl, hbetween⟩

/-- **Arguments and ends are those of the call that is open**: it was open from the beginning, or
its start is the last one before them and no end is in between. -/
theorem Consistent.openIn (h : Consistent a deltas b) {front back : List Delta} {d : Delta}
    {id : String} (hsplit : deltas = front ++ d :: back) (hd : d.concerns? = some id) :
    OpenIn id front ∨ a = some id ∧ ∀ e ∈ front, ¬ e.isStart ∧ ¬ e.isEnd := by
  induction h generalizing front with
  | nil => exact absurd hsplit (by simp)
  | start call id' name _ ih =>
    rcases List.cons_eq_append_iff.1 hsplit with ⟨rfl, heq⟩ | ⟨front', rfl, hrest⟩
    · cases heq
      cases hd
    · rcases ih hrest with hopen | ⟨hid, hfront⟩
      · exact .inl (hopen.cons _)
      · cases hid
        exact .inl ⟨[], name, front', rfl, hfront⟩
  | stop id' _ ih =>
    rcases List.cons_eq_append_iff.1 hsplit with ⟨rfl, heq⟩ | ⟨front', rfl, hrest⟩
    · cases heq
      cases hd
      exact .inr ⟨rfl, nofun⟩
    · rcases ih hrest with hopen | ⟨hid, -⟩
      · exact .inl (hopen.cons _)
      · cases hid
  | arguments id' text _ ih =>
    rcases List.cons_eq_append_iff.1 hsplit with ⟨rfl, heq⟩ | ⟨front', rfl, hrest⟩
    · cases heq
      cases hd
      exact .inr ⟨rfl, nofun⟩
    · rcases ih hrest with hopen | ⟨hid, hfront⟩
      · exact .inl (hopen.cons _)
      · exact .inr ⟨hid, List.forall_mem_cons.2 ⟨⟨nofun, nofun⟩, hfront⟩⟩
  | @aside e hcall hstart _ _ _ _ ih =>
    rcases List.cons_eq_append_iff.1 hsplit with ⟨rfl, heq⟩ | ⟨front', rfl, hrest⟩
    · cases heq
      rw [hcall] at hd
      cases hd
    · rcases ih hrest with hopen | ⟨hid, hfront⟩
      · exact .inl (hopen.cons _)
      · refine .inr ⟨hid, List.forall_mem_cons.2 ⟨⟨?_, ?_⟩, hfront⟩⟩
        · rw [hstart]
          exact Bool.false_ne_true
        · exact not_isEnd hcall

/-! ## Calls as they can be read off -/

/-- The arguments that come before the next start, one after the other. -/
def arguments (deltas : List Delta) : String :=
  String.join ((deltas.takeWhile (!·.isStart)).filterMap argument?)

theorem arguments_cons {d : Delta} (h : d.isStart = false) (rest : List Delta) :
    arguments (d :: rest) = d.argument?.getD "" ++ arguments rest := by
  rw [arguments, List.takeWhile_cons_of_pos (by simp [h]), List.filterMap_cons]
  cases d.argument? with
  | none => exact String.empty_append.symm
  | some said => exact String.join_cons

/-- The calls that are started, each with the arguments up to the next start. -/
def calls : List Delta → List OpenCall
  | [] => []
  | .callStart id name :: rest => ⟨id, name, arguments rest⟩ :: calls rest
  | _ :: rest => calls rest

/-- While no call is open there are no arguments. -/
theorem Consistent.arguments_eq (h : Consistent none deltas b) : Delta.arguments deltas = "" := by
  generalize hnone : (none : Option String) = call at h
  induction h with
  | nil | start => rfl
  | arguments | stop => cases hnone
  | aside hcall hstart _ ih =>
    rw [arguments_cons hstart, argument?_eq_none hcall, ih hnone]
    rfl

end Delta

open Delta

namespace Accumulator

/-- **The accumulator makes the calls that can be read off**, after those that it has closed and
the one that is open, whose arguments go on up to the next start. -/
theorem calls_pushAll {call after : Option String} {deltas : List Delta} {a : Accumulator}
    (h : Consistent call deltas after) (ha : a.current.map (·.id) = call) :
    (a.pushAll deltas).calls =
      a.closed ++ a.current.toList.map (fun c =>
        { c with arguments := c.arguments ++ Delta.arguments deltas }) ++ Delta.calls deltas := by
  have hcons (a : Accumulator) (d : Delta) (rest : List Delta) :
      a.pushAll (d :: rest) = (a.push d).pushAll rest := rfl
  induction h generalizing a with
  | nil =>
    have hsame (c : OpenCall) : { c with arguments := c.arguments ++ Delta.arguments [] } = c := by
      rw [show Delta.arguments [] = "" from rfl, String.append_empty]
    simp only [hsame, List.map_id', Delta.calls, List.append_nil]
    rfl
  | start call id name h ih =>
    have hnone (rest : List Delta) : Delta.arguments (.callStart id name :: rest) = "" := rfl
    rw [hcons, ih rfl]
    simp only [push, Accumulator.calls, Option.toList_some, List.map_singleton, String.empty_append,
      hnone, String.append_empty, List.map_id', Delta.calls, List.append_assoc,
      List.singleton_append]
  | arguments id text h ih =>
    obtain ⟨c, hc, rfl⟩ := Option.map_eq_some_iff.1 ha
    have hmore (rest : List Delta) :
        Delta.arguments (.callArguments c.id text :: rest) = text ++ Delta.arguments rest :=
      arguments_cons rfl rest
    have hpushed : (a.push (.callArguments c.id text)).current =
        some { c with arguments := c.arguments ++ text } := by
      rw [push, hc]
      rfl
    rw [hcons, ih (by rw [hpushed]; rfl), hpushed, hc]
    simp only [push, Option.toList_some, List.map_singleton, hmore, String.append_assoc,
      Delta.calls]
  | stop id h ih =>
    obtain ⟨c, hc, rfl⟩ := Option.map_eq_some_iff.1 ha
    -- what follows the end has no arguments, up to the next start
    have hnone : Delta.arguments (.callEnd c.id :: _) = "" :=
      (arguments_cons rfl _).trans (String.empty_append.trans h.arguments_eq)
    rw [hcons, ih rfl]
    simp only [push, Accumulator.calls, hc, Option.toList_some, Option.toList_none, List.map_nil,
      List.append_nil, List.map_singleton, hnone, String.append_empty, Delta.calls]
  | @aside d hcall hstart _ rest _ _ ih =>
    have hpushed : (a.push d).closed = a.closed ∧ (a.push d).current = a.current ∧
        Delta.calls (d :: rest) = Delta.calls rest := by
      cases d with
      | callStart => cases hstart
      | callArguments | callEnd => cases hcall
      | text | done | error => exact ⟨rfl, rfl, rfl⟩
    obtain ⟨hclosed, hcurrent, hcalls⟩ := hpushed
    rw [hcons, ih (hcurrent ▸ ha), hclosed, hcurrent, hcalls, arguments_cons hstart,
      argument?_eq_none hcall]
    simp only [Option.getD_none, String.empty_append]

/-- From the beginning, these are all calls. -/
theorem calls_pushAll_empty {after : Option String} {deltas : List Delta}
    (h : Consistent none deltas after) :
    (({} : Accumulator).pushAll deltas).calls = Delta.calls deltas :=
  (calls_pushAll h rfl).trans (List.nil_append _)

/-- A call that does not end is closed by the next one. -/
example : (({} : Accumulator).pushAll [.callStart "a" "save", .callArguments "a" "[1",
    .callStart "b" "load", .callArguments "b" "[2", .callArguments "b" "]", .callEnd "b"]).calls =
      [⟨"a", "save", "[1"⟩, ⟨"b", "load", "[2]"⟩] := by decide

end Accumulator

/-! ## What a decoder says -/

namespace EventStream

namespace Decoder

/-- **Whatever an event is, what it says is consistent** with the call that the decoder has open. -/
theorem consistent_event (d : Decoder) (e : Event) :
    Consistent d.call (d.event e).1 (d.event e).2.call := by
  have hquiet : Consistent d.call [] d.call := .nil _
  unfold event
  split_ifs
  · exact hquiet
  · split
    · exact hquiet
    · exact hquiet
  · split
    · exact .start _ _ _ (.nil _)
    · split_ifs
      · exact hquiet
      · exact .aside rfl rfl hquiet
    · exact hquiet
  · split
    · exact .aside rfl rfl hquiet
    · cases d.call with
      | none => exact .nil _
      | some id => exact .arguments id _ (.nil _)
    · exact hquiet
  · cases d.call with
    | none => exact .nil _
    | some id => exact .stop id (.nil _)
  · split
    · exact hquiet
    · exact hquiet
  · exact .aside rfl rfl hquiet
  · cases reported.readText e.data with
    | none => exact hquiet
    | some message => exact .aside rfl rfl hquiet
  · exact hquiet

theorem consistent_events (d : Decoder) (es : List Event) :
    Consistent d.call (d.events es).1 (d.events es).2.call := by
  induction es generalizing d with
  | nil => exact .nil _
  | cons e es ih => exact (d.consistent_event e).append (ih _)

theorem consistent_feed (d : Decoder) (text : List Char) :
    Consistent d.call (d.feed text).1 (d.feed text).2.call := by
  rw [feed_eq]
  exact d.consistent_events _

end Decoder

/-- **Whatever arrives, the items are deltas** that are consistent with the open call, **and one
failure after them at most.** -/
theorem exists_consistent (d : Decoder) (arrivals : List Arrival) :
    ∃ deltas failure after, itemsFrom d arrivals =
      deltas.map .ok ++ (failure : Option Failure).toList.map .error ∧
      Consistent d.call deltas after := by
  induction arrivals generalizing d with
  | nil => exact ⟨[], none, _, rfl, .nil _⟩
  | cons arrival rest ih =>
    cases arrival with
    | bytes chunk =>
      obtain ⟨deltas, failure, after, hitems, hconsistent⟩ :=
        ih (d.feed (Text.Lossy.decode chunk)).2
      refine ⟨_, failure, after, ?_, (d.consistent_feed _).append hconsistent⟩
      rw [List.map_append, List.append_assoc, ← hitems, itemsFrom]
    | broken reason => exact ⟨[], some (.streamError reason), _, rfl, .nil _⟩
    | cancelled => exact ⟨[], some .cancelled, _, rfl, .nil _⟩

/-- **Calls are not mixed up, whatever arrives.**  The items of a body are deltas, and after them
one failure at most.  Arguments and ends carry the id of the call whose start is the last one
before them, and no end is in between.  The accumulator makes one call of each start, in order, with
the id and the name of the start, and with the arguments that come after it and before the next
start. -/
theorem calls_of_arrivals (arrivals : List Arrival) :
    ∃ (deltas : List Delta) (failure : Option Failure),
      items arrivals = deltas.map .ok ++ failure.toList.map .error ∧
      (∀ front d back id, deltas = front ++ d :: back → d.concerns? = some id →
        OpenIn id front) ∧
      (({} : Accumulator).pushAll deltas).calls = Delta.calls deltas ∧
      (({} : Accumulator).pushAll deltas).finish.calls =
        (Delta.calls deltas).map OpenCall.toCall := by
  obtain ⟨deltas, failure, after, hitems, hconsistent⟩ := exists_consistent {} arrivals
  have hcalls := Accumulator.calls_pushAll_empty hconsistent
  refine ⟨deltas, failure, hitems, fun front d back id hsplit hd => ?_, hcalls, ?_⟩
  · rcases hconsistent.openIn hsplit hd with hopen | ⟨hid, -⟩
    · exact hopen
    · cases hid
  · rw [Accumulator.finish, hcalls]

end EventStream

end Parley.Model
