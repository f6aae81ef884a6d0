import Mathlib.Tactic.ByContra
import Parley.Proofs.Context.Merging

/-!
# Conversations that a service accepts

A service accepts a list of messages when user and assistant take turns, the user has the first
and the last word, and calls and results match: a call is the last block of an assistant's message
and the next message opens with its result, and a result has no other place.
`Model.IsConversation` says this by what stands within a message (`Message.IsSound`) and between
neighbours.

## Where it comes from

A transcript is `Paired` when each call stands next to its result.  Folding neighbours of one role
keeps the pairs together, because only the user's side is ever folded onto a result and only words
are folded onto a call (`thread_merge`).  A window that starts with a turn of the user does not
part a pair either (`paired_drop`), which is what the window rule is for.
-/

namespace Parley

namespace Model

/-- The call that a block is. -/
def Block.use? : Block → Option String
  | .toolUse id .. => some id
  | _ => none

/-- The call that a block is the result of. -/
def Block.result? : Block → Option String
  | .toolResult id .. => some id
  | _ => none

namespace Message

/-- The call that a message ends with. -/
def asks? (m : Message) : Option String := m.blocks.getLast?.bind Block.use?

/-- The call whose result a message opens with. -/
def answers? (m : Message) : Option String := m.blocks.head?.bind Block.result?

/-- A message of the user or the assistant in which calls and results are in their places. -/
structure IsSound (m : Message) : Prop where
  nonempty : m.blocks ≠ []
  role : m.role = "user" ∨ m.role = "assistant"
  /-- A call is the assistant's, and the last block. -/
  uses : ∀ j b, m.blocks[j]? = some b → b.use?.isSome → m.role = "assistant" ∧
    j + 1 = m.blocks.length
  /-- A result is the user's, and the first block. -/
  results : ∀ j b, m.blocks[j]? = some b → b.result?.isSome → m.role = "user" ∧ j = 0

end Message

/-- How neighbours fit: the roles alternate, and the second opens with the result of the call that
the first ends with, or there is neither. -/
def Follows (m n : Message) : Prop := m.role ≠ n.role ∧ m.asks? = n.answers?

/-- A list of messages that a service accepts. -/
structure IsConversation (ms : List Message) : Prop where
  sound : ∀ m ∈ ms, m.IsSound
  first : ∃ m, ms.head? = some m ∧ m.role = "user" ∧ m.answers? = none
  last : ∃ m, ms.getLast? = some m ∧ m.role = "user"
  linked : ms.IsChain Follows

/-- Messages that fit, with nothing left open at either end. -/
structure IsThread (ms : List Message) : Prop where
  sound : ∀ m ∈ ms, m.IsSound
  opens : ∀ m ∈ ms.head?, m.answers? = none
  closes : ∀ m ∈ ms.getLast?, m.asks? = none
  linked : ms.IsChain Follows

end Model

namespace Context

open Model

/-! ## Folding -/

theorem answers?_fold {m n : Message} (hm : m.blocks ≠ []) :
    (fold m n).answers? = m.answers? := by
  rw [Message.answers?, blocks_fold, List.head?_append_of_ne_nil _ hm]
  rfl

theorem asks?_fold {m n : Message} (hn : n.blocks ≠ []) : (fold m n).asks? = n.asks? := by
  rw [Message.asks?, blocks_fold, List.getLast?_append_of_ne_nil _ hn]
  rfl

/-- A call in a message that ends with none is not there. -/
theorem not_use_of_asks? {m : Message} (hm : m.IsSound) (hasks : m.asks? = none) {j : Nat}
    {b : Block} (hb : m.blocks[j]? = some b) : b.use? = none := by
  by_contra huse
  have hlast := (hm.uses j b hb (Option.isSome_iff_ne_none.2 huse)).2
  rw [Message.asks?, List.getLast?_eq_getElem?, ← hlast, Nat.add_sub_cancel, hb] at hasks
  exact huse hasks

/-- A result in a message that opens with none is not there. -/
theorem not_result_of_answers? {m : Message} (hm : m.IsSound) (hanswers : m.answers? = none)
    {j : Nat} {b : Block} (hb : m.blocks[j]? = some b) : b.result? = none := by
  by_contra hresult
  have hfirst := (hm.results j b hb (Option.isSome_iff_ne_none.2 hresult)).2
  rw [hfirst] at hb
  rw [Message.answers?, List.head?_eq_getElem?, hb] at hanswers
  exact hresult hanswers

/-- Messages of one role fold into a sound one, if no call and no result gets in between. -/
theorem isSound_fold {m n : Message} (hm : m.IsSound) (hn : n.IsSound) (hrole : m.role = n.role)
    (hasks : m.asks? = none) (hanswers : n.answers? = none) : (fold m n).IsSound where
  nonempty := by
    rw [blocks_fold]
    exact List.append_ne_nil_of_left_ne_nil hm.nonempty _
  role := hm.role
  uses := by
    intro j b hb huse
    rw [blocks_fold] at hb ⊢
    rw [List.length_append]
    rcases Nat.lt_or_ge j m.blocks.length with hj | hj
    · rw [List.getElem?_append_left hj] at hb
      rw [not_use_of_asks? hm hasks hb] at huse
      cases huse
    · rw [List.getElem?_append_right hj] at hb
      obtain ⟨hassistant, hlast⟩ := hn.uses _ b hb huse
      exact ⟨hrole.trans hassistant, by omega⟩
  results := by
    intro j b hb hresult
    rw [blocks_fold] at hb
    rcases Nat.lt_or_ge j m.blocks.length with hj | hj
    · rw [List.getElem?_append_left hj] at hb
      exact hm.results j b hb hresult
    · rw [List.getElem?_append_right hj] at hb
      rw [not_result_of_answers? hn hanswers hb] at hresult
      cases hresult

/-- Before a thread, a message that asks for nothing keeps everything in place but what it opens
with itself. -/
theorem push_thread {m : Message} {ms : List Message} (hm : m.IsSound) (hasks : m.asks? = none)
    (h : IsThread ms) :
    ∃ first more, push m ms = first :: more ∧ first.role = m.role ∧
      first.answers? = m.answers? ∧ (∀ n ∈ first :: more, n.IsSound) ∧
      (∀ n ∈ (first :: more).getLast?, n.asks? = none) ∧ (first :: more).IsChain Follows := by
  cases ms with
  | nil =>
    refine ⟨m, [], rfl, rfl, rfl, ?_, ?_, List.isChain_singleton _⟩
    · intro n hn
      rwa [List.mem_singleton.1 hn]
    · intro n hn
      cases hn
      exact hasks
  | cons n more =>
    have hn := h.sound n List.mem_cons_self
    have hanswers := h.opens n rfl
    by_cases hrole : m.role = n.role
    · refine ⟨fold m n, more, if_pos hrole, rfl, answers?_fold hm.nonempty, ?_, ?_, ?_⟩
      · intro n' hn'
        rcases List.mem_cons.1 hn' with rfl | hn'
        · exact isSound_fold hm hn hrole hasks hanswers
        · exact h.sound n' (List.mem_cons_of_mem _ hn')
      · intro n' hn'
        cases more with
        | nil =>
          cases hn'
          change (fold m n).asks? = none
          rw [asks?_fold hn.nonempty]
          exact h.closes n rfl
        | cons k more => exact h.closes n' hn'
      · refine List.isChain_cons.2 ⟨fun k hk => ?_, (List.isChain_cons.1 h.linked).2⟩
        obtain ⟨hroles, hopens⟩ := (List.isChain_cons.1 h.linked).1 k hk
        refine ⟨fun hsame => hroles (hrole.symm.trans hsame), ?_⟩
        rw [asks?_fold hn.nonempty]
        exact hopens
    · refine ⟨m, n :: more, if_neg hrole, rfl, rfl, ?_, ?_, ?_⟩
      · intro n' hn'
        rcases List.mem_cons.1 hn' with rfl | hn'
        · exact hm
        · exact h.sound n' hn'
      · intro n' hn'
        exact h.closes n' hn'
      · refine List.isChain_cons.2 ⟨fun k hk => ?_, h.linked⟩
        cases hk
        exact ⟨hrole, hasks.trans hanswers.symm⟩

theorem isThread_nil : IsThread [] := ⟨nofun, nofun, nofun, List.isChain_nil⟩

/-- Words before a thread make a thread. -/
theorem isThread_push {m : Message} {ms : List Message} (hm : m.IsSound) (hasks : m.asks? = none)
    (hanswers : m.answers? = none) (h : IsThread ms) : IsThread (push m ms) := by
  obtain ⟨first, more, hpush, -, hopens, hsound, hcloses, hlinked⟩ := push_thread hm hasks h
  rw [hpush]
  refine ⟨hsound, fun n hn => ?_, hcloses, hlinked⟩
  cases hn
  rw [hopens, hanswers]

/-- A call and its result before a thread make a thread. -/
theorem isThread_push_pair {c r : Message} {ms : List Message} (hc : c.IsSound) (hr : r.IsSound)
    (hrole : c.role ≠ r.role) (hcall : c.answers? = none) (hresult : r.asks? = none)
    (hpair : c.asks? = r.answers?) (h : IsThread ms) : IsThread (push c (push r ms)) := by
  obtain ⟨first, more, hpush, hfirst, hopens, hsound, hcloses, hlinked⟩ := push_thread hr hresult h
  have hdiffer : c.role ≠ first.role := by
    rw [hfirst]
    exact hrole
  rw [hpush, push, if_neg hdiffer]
  refine ⟨fun n hn => ?_, fun n hn => ?_, hcloses, ?_⟩
  · rcases List.mem_cons.1 hn with rfl | hn
    · exact hc
    · exact hsound n hn
  · cases hn
    exact hcall
  · refine List.isChain_cons.2 ⟨fun n hn => ?_, hlinked⟩
    cases hn
    exact ⟨hdiffer, hpair.trans hopens.symm⟩

/-! ## Roles at the ends -/

/-- Folding keeps the role at the beginning. -/
theorem role_head_merge (m : Message) (rest : List Message) :
    (merge (m :: rest)).head?.map Message.role = some m.role := by
  obtain ⟨first, more, hpush, hrole⟩ := exists_push m (merge rest)
  rw [merge_cons, hpush, List.head?_cons, Option.map_some, hrole]

/-- Folding keeps the role at the end. -/
theorem role_getLast_merge (ms : List Message) :
    (merge ms).getLast?.map Message.role = ms.getLast?.map Message.role := by
  induction ms with
  | nil => rfl
  | cons m rest ih =>
    rw [merge_cons]
    cases rest with
    | nil => rfl
    | cons k rest =>
      rw [List.getLast?_cons_cons, ← ih]
      rcases hrest : merge (k :: rest) with _ | ⟨n, more⟩
      · have hhead := role_head_merge k rest
        rw [hrest] at hhead
        cases hhead
      · rw [push]
        split
        case isTrue hrole =>
          cases more with
          | nil => exact congrArg some hrole
          | cons l more => rw [List.getLast?_cons_cons, List.getLast?_cons_cons]
        case isFalse hrole => rw [List.getLast?_cons_cons]

/-! ## Paired transcripts -/

/-- Turns in which each call stands next to its result. -/
inductive Paired : List Turn → Prop where
  | nil : Paired []
  | words {t : Turn} {rest : List Turn} {text : String}
    (hrole : t.role = .user ∨ t.role = .assistant) (ht : t.content = .text text)
    (h : Paired rest) : Paired (t :: rest)
  | call {c r : Turn} {rest : List Turn} {callId name name' output : String} {arguments : Json}
    {status : ToolStatus} (hc : c.role = .toolCall) (hr : r.role = .toolResult)
    (hcall : c.content = .toolCall callId name arguments)
    (hresult : r.content = .toolResult callId name' output status) (h : Paired rest) :
    Paired (c :: r :: rest)

theorem Paired.append {a b : List Turn} (ha : Paired a) (hb : Paired b) : Paired (a ++ b) := by
  induction ha with
  | nil => exact hb
  | words hrole ht _ ih => exact .words hrole ht ih
  | call hc hr hcall hresult _ ih => exact .call hc hr hcall hresult ih

/-- Left out from the beginning, up to a turn of the user, a paired transcript stays paired. -/
theorem paired_drop {ts : List Turn} (h : Paired ts) {k : Nat} {t : Turn} {rest : List Turn}
    (hdrop : ts.drop k = t :: rest) (ht : isUser t) : Paired (t :: rest) := by
  induction h generalizing k with
  | nil =>
    rw [List.drop_nil] at hdrop
    cases hdrop
  | words hrole hwords h ih =>
    cases k with
    | zero =>
      cases hdrop
      exact .words hrole hwords h
    | succ k => exact ih hdrop
  | @call c r _ _ _ _ _ _ _ hc hr hcall hresult h ih =>
    -- Neither the call nor its result is a turn of the user.
    match k with
    | 0 =>
      cases hdrop
      rw [isUser, hc] at ht
      cases ht
    | 1 =>
      cases hdrop
      rw [isUser, hr] at ht
      cases ht
    | k + 2 => exact ih hdrop

/-! ## Messages of turns -/

theorem eq_of_getElem?_singleton {α : Type} {a b : α} {j : Nat} (h : [a][j]? = some b) :
    j = 0 ∧ a = b := by
  cases j with
  | zero => exact ⟨rfl, Option.some_inj.1 h⟩
  | succ j => cases h

/-- A message of one block is sound when the role is the block's. -/
theorem isSound_of_block {m : Message} {b : Block} (hblocks : m.blocks = [b])
    (hrole : m.role = "user" ∨ m.role = "assistant") (huse : b.use?.isSome → m.role = "assistant")
    (hresult : b.result?.isSome → m.role = "user") : m.IsSound where
  nonempty := by
    rw [hblocks]
    exact List.cons_ne_nil _ _
  role := hrole
  uses := by
    intro j b' hb' h
    rw [hblocks] at hb' ⊢
    obtain ⟨rfl, rfl⟩ := eq_of_getElem?_singleton hb'
    exact ⟨huse h, rfl⟩
  results := by
    intro j b' hb' h
    rw [hblocks] at hb'
    obtain ⟨rfl, rfl⟩ := eq_of_getElem?_singleton hb'
    exact ⟨hresult h, rfl⟩

/-- **Turns in pairs make a thread.** -/
theorem thread_merge {ts : List Turn} (h : Paired ts) : IsThread (merge (ts.map message)) := by
  have habsurd {p : Prop} (h : false = true) : p := absurd h Bool.false_ne_true
  induction h with
  | nil => exact isThread_nil
  | @words t rest text hrole ht h ih =>
    have hblocks : (message t).blocks = [.text text] := by
      rw [message, ht]
      dsimp only
      split <;> rfl
    have hsound : (message t).IsSound := by
      refine isSound_of_block hblocks ?_ habsurd habsurd
      rw [message, ht]
      dsimp only
      split
      · exact .inl rfl
      · exact .inr rfl
    have hasks : (message t).asks? = none := by rw [Message.asks?, hblocks]; rfl
    have hanswers : (message t).answers? = none := by rw [Message.answers?, hblocks]; rfl
    rw [List.map_cons, merge_cons]
    exact isThread_push hsound hasks hanswers ih
  | @call c r rest callId name name' output arguments status hc hr hcall hresult h ih =>
    have hmc : message c = ⟨"assistant", .blocks [.toolUse callId name arguments]⟩ := by
      rw [message, hcall]
    have hmr : message r = ⟨"user", .blocks [.toolResult callId output
        (if status = .ok then none else some true)]⟩ := by
      rw [message, hresult]
    rw [List.map_cons, List.map_cons, merge_cons, merge_cons, hmc, hmr]
    exact isThread_push_pair (isSound_of_block rfl (.inr rfl) (fun _ => rfl) habsurd)
      (isSound_of_block rfl (.inl rfl) habsurd fun _ => rfl)
      (show "assistant" ≠ "user" by decide) rfl rfl rfl ih

/-- A thread that starts and ends with the user is a conversation. -/
theorem isConversation_of_thread {ms : List Message} (h : IsThread ms)
    (hfirst : ms.head?.map Message.role = some "user")
    (hlast : ms.getLast?.map Message.role = some "user") : IsConversation ms where
  sound := h.sound
  first := by
    obtain ⟨m, hm, hrole⟩ := Option.map_eq_some_iff.1 hfirst
    exact ⟨m, hm, hrole, h.opens m hm⟩
  last := Option.map_eq_some_iff.1 hlast
  linked := h.linked

/-! ## The window -/

/-- A transcript that the user began is shown from a turn of the user on. -/
theorem window_start (budget : Nat) {t : Turn} (rest : List Turn) (ht : isUser t) :
    ∃ u more, window budget (t :: rest) = u :: more ∧ isUser u := by
  rcases Nat.lt_or_ge budget (total (t :: rest)) with hover | hfits
  · obtain ⟨last, hlast⟩ := exists_isLastUser ⟨t, List.mem_cons_self, isUser_iff.1 ht⟩
    obtain ⟨u, hu, hrole⟩ := (windowStart_isLeast hlast hover).1.user
    obtain ⟨hlength, rfl⟩ := List.getElem?_eq_some_iff.1 hu
    exact ⟨_, _, List.drop_eq_getElem_cons hlength, isUser_iff.2 hrole⟩
  · rw [window, windowStart_of_fits hfits]
    exact ⟨t, rest, rfl, ht⟩

/-- The window ends where the transcript does. -/
theorem getLast?_window {budget : Nat} {ts : List Turn} (h : window budget ts ≠ []) :
    (window budget ts).getLast? = ts.getLast? := by
  rw [window, List.getLast?_drop, if_neg]
  intro hle
  exact h (List.drop_eq_nil_of_le hle)

/-! ## The request -/

/-- A transcript that the user began, with each call next to its result. -/
structure IsBegun (ts : List Turn) : Prop where
  paired : Paired ts
  first : ∃ t rest, ts = t :: rest ∧ isUser t

/-- Such a transcript that calls for an answer: the last word is the user's or a result. -/
structure IsReady (ts : List Turn) : Prop extends IsBegun ts where
  last : ∃ t, ts.getLast? = some t ∧ (message t).role = "user"

/-- A begun transcript goes on with paired turns. -/
theorem IsBegun.append {ts more : List Turn} (h : IsBegun ts) (hmore : Paired more) :
    IsBegun (ts ++ more) where
  paired := h.paired.append hmore
  first := by
    obtain ⟨t, rest, rfl, ht⟩ := h.first
    exact ⟨t, rest ++ more, rfl, ht⟩

/-- A transcript between two runs: nothing was said, or it is begun. -/
def IsSettled (ts : List Turn) : Prop := ts = [] ∨ IsBegun ts

theorem IsBegun.ne_nil {ts : List Turn} (h : IsBegun ts) : ts ≠ [] := by
  obtain ⟨t, rest, rfl, -⟩ := h.first
  exact List.cons_ne_nil _ _

/-- Words of the assistant leave a transcript begun. -/
theorem IsBegun.assistant {ts : List Turn} (h : IsBegun ts) (text : String) (now : Timestamp) :
    IsBegun (ts ++ [.assistant text now]) :=
  h.append (.words (.inr rfl) rfl .nil)

/-- A call and its result leave a transcript ready. -/
theorem IsBegun.call {ts : List Turn} (h : IsBegun ts) {c r : Turn}
    {callId name name' output : String} {arguments : Json} {status : ToolStatus}
    (hc : c.role = .toolCall) (hr : r.role = .toolResult)
    (hcall : c.content = .toolCall callId name arguments)
    (hresult : r.content = .toolResult callId name' output status) :
    IsReady (ts ++ [c] ++ [r]) := by
  rw [List.append_assoc]
  refine ⟨h.append (.call hc hr hcall hresult .nil), r, ?_, ?_⟩
  · rw [List.getLast?_append]
    rfl
  · rw [message, hresult]

/-- A message makes a settled transcript ready. -/
theorem IsSettled.user {ts : List Turn} (h : IsSettled ts) (text : String) (now : Timestamp) :
    IsReady (ts ++ [.user text now]) := by
  have hpaired : Paired [.user text now] := .words (.inl rfl) rfl .nil
  have hlast : ∃ t, (ts ++ [Turn.user text now]).getLast? = some t ∧ (message t).role = "user" := by
    refine ⟨.user text now, ?_, rfl⟩
    rw [List.getLast?_append]
    rfl
  rcases h with rfl | h
  · exact ⟨⟨hpaired, .user text now, [], rfl, rfl⟩, hlast⟩
  · exact ⟨h.append hpaired, hlast⟩

/-- A turn of the user before paired turns makes a message of the user. -/
theorem Paired.role_head {t : Turn} {rest : List Turn} (h : Paired (t :: rest)) (ht : isUser t) :
    (message t).role = "user" := by
  cases h with
  | words hrole hwords h =>
    rw [message, hwords]
    exact congrArg Message.role (if_pos (of_decide_eq_true ht))
  | call hc =>
    rw [isUser, hc] at ht
    cases ht

/-- **Whatever the budget, a transcript that calls for an answer is shown as a conversation.** -/
theorem isConversation_window (budget : Nat) {ts : List Turn} (h : IsReady ts) :
    IsConversation (merge ((window budget ts).map message)) := by
  obtain ⟨t, rest, rfl, ht⟩ := h.first
  obtain ⟨u, more, hwindow, hu⟩ := window_start budget rest ht
  have hpaired : Paired (u :: more) := paired_drop h.paired hwindow hu
  obtain ⟨l, hl, hrole⟩ := h.last
  have hne : window budget (t :: rest) ≠ [] := by
    rw [hwindow]
    exact List.cons_ne_nil _ _
  have hend := getLast?_window hne
  rw [hwindow] at hend ⊢
  refine isConversation_of_thread (thread_merge hpaired) ?_ ?_
  · rw [List.map_cons, role_head_merge, hpaired.role_head hu]
  · rw [role_getLast_merge, List.getLast?_map, hend, hl]
    exact congrArg some hrole

/-- The messages of a conversation are not instructions. -/
theorem filter_eq_self_of_isSound {ms : List Message} (h : ∀ m ∈ ms, m.IsSound) :
    ms.filter (·.role != "system") = ms := by
  rw [List.filter_eq_self]
  intro m hm
  rcases (h m hm).role with hrole | hrole <;> rw [hrole] <;> decide

/-- The instructions before the transcript are left out of the conversation. -/
theorem filter_preamble (system : Option String) (tools : List ToolDefinition) :
    (preamble system tools).filter (·.role != "system") = [] := by
  rw [List.filter_eq_nil_iff]
  intro m hm
  rw [role_of_mem_preamble hm]
  decide

/-- **The request that a transcript makes** holds a conversation. -/
theorem isConversation_build {maxTokens : Nat} {system : Option String}
    {tools : List ToolDefinition} {ts : List Turn} {r : Request}
    (hr : r.messages = build maxTokens system tools ts) (h : IsReady ts) :
    IsConversation r.conversation := by
  have hwindow := isConversation_window (allowance maxTokens system tools) h
  rw [Request.conversation, hr, build_eq, List.filter_append, filter_preamble, List.nil_append,
    filter_eq_self_of_isSound hwindow.sound]
  exact hwindow

end Context

end Parley
