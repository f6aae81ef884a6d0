import Mathlib.Data.List.Chain
import Mathlib.Tactic.Set
import Parley.Proofs.Context.Window

/-!
# What a request says of a transcript

The messages of a request are folded one after the other onto those before (`join`).  Seen from the
other end, each message is put before those that are folded already (`merge`), and that is the
same list (`foldl_join`); on it the laws are inductions.

1. Folding loses and reorders nothing: block by block, the messages say what the turns of the
   window say, each in its role (`build_says_window`).
2. Folding costs nothing: a message of two is never estimated higher than the two
   (`tokens_fold_le`).  So a request is within the budget unless the window starts at the user's
   last turn (`build_within_budget`).
-/

namespace Parley

namespace Model

/-- The blocks of a message. -/
def Message.blocks (m : Message) : List Block := m.content.toBlocks

end Model

namespace Context

open Model

variable {m n : Message} {ms rest before : List Message} {ts : List Turn}

/-! ## Folding from the end -/

/-- A message before others, folded onto the first if that is of its role. -/
def push (m : Message) : List Message → List Message
  | [] => [m]
  | n :: more => if m.role = n.role then fold m n :: more else m :: n :: more

/-- Messages with neighbours of one role folded together. -/
def merge : List Message → List Message
  | [] => []
  | m :: rest => push m (merge rest)

theorem merge_cons (m : Message) (rest : List Message) :
    merge (m :: rest) = push m (merge rest) := rfl

theorem blocks_fold (m n : Message) : (fold m n).blocks = m.blocks ++ n.blocks := rfl

theorem fold_fold (m n k : Message) : fold (fold m n) k = fold m (fold n k) :=
  congrArg (Message.mk m.role ∘ .blocks) (List.append_assoc ..)

/-- The first message keeps the role of what was put there. -/
theorem exists_push (m : Message) (ms : List Message) :
    ∃ first more, push m ms = first :: more ∧ first.role = m.role := by
  cases ms with
  | nil => exact ⟨m, [], rfl, rfl⟩
  | cons n more =>
    rw [push]
    split
    · exact ⟨fold m n, more, rfl, rfl⟩
    · exact ⟨m, n :: more, rfl, rfl⟩

theorem push_push (h : m.role = n.role) (ms : List Message) :
    push m (push n ms) = push (fold m n) ms := by
  have hfold : (fold m n).role = n.role := h
  cases ms with
  | nil => exact if_pos h
  | cons k more =>
    rw [push, push, hfold]
    split
    · exact (if_pos h).trans (by rw [fold_fold])
    · exact if_pos h

theorem push_push_of_ne (h : m.role ≠ n.role) (ms : List Message) :
    push m (push n ms) = m :: push n ms := by
  obtain ⟨first, more, hpush, hrole⟩ := exists_push n ms
  rw [hpush, push, if_neg]
  rwa [hrole]

theorem join_concat (before : List Message) (m n : Message) :
    join (before ++ [m]) n =
      if m.role = n.role ∧ m.role ≠ "system" then before ++ [fold m n]
      else before ++ [m] ++ [n] := by
  rw [join, List.getLast?_concat, List.dropLast_concat]

/-- After a message, those folded onto it one by one are what is folded from the end. -/
theorem foldl_join_concat (hm : m.role ≠ "system") (hms : ∀ n ∈ ms, n.role ≠ "system") :
    ms.foldl join (before ++ [m]) = before ++ merge (m :: ms) := by
  induction ms generalizing before m with
  | nil => rfl
  | cons n ms ih =>
    obtain ⟨hn, hms⟩ := List.forall_mem_cons.1 hms
    rw [List.foldl_cons, join_concat, merge_cons, merge_cons]
    by_cases hrole : m.role = n.role
    · have hfold : (fold m n).role ≠ "system" := hm
      rw [if_pos ⟨hrole, hm⟩, ih hfold hms, merge_cons, push_push hrole]
    · rw [if_neg fun h => hrole h.1, ih hn hms, merge_cons, push_push_of_ne hrole,
        List.append_assoc, List.singleton_append]

/-- **After instructions, messages are folded among themselves.** -/
theorem foldl_join (hbefore : ∀ m ∈ before, m.role = "system")
    (hms : ∀ n ∈ ms, n.role ≠ "system") : ms.foldl join before = before ++ merge ms := by
  cases ms with
  | nil => exact (List.append_nil before).symm
  | cons n ms =>
    obtain ⟨hn, hms⟩ := List.forall_mem_cons.1 hms
    have hjoin : join before n = before ++ [n] := by
      rcases before.eq_nil_or_concat' with rfl | ⟨front, m, rfl⟩
      · rfl
      · have hm : m.role = "system" := hbefore m (List.mem_append_right _ List.mem_cons_self)
        rw [join_concat, if_neg fun h => h.2 hm]
    rw [List.foldl_cons, hjoin, foldl_join_concat hn hms]

/-! ## What folding keeps -/

/-- What messages say: their blocks in order, each with the role in which it is said. -/
def said (ms : List Message) : List (String × Block) :=
  ms.flatMap fun m => m.blocks.map (m.role, ·)

theorem said_cons (m : Message) (ms : List Message) :
    said (m :: ms) = m.blocks.map (m.role, ·) ++ said ms := rfl

theorem said_push (m : Message) (ms : List Message) : said (push m ms) = said (m :: ms) := by
  cases ms with
  | nil => rfl
  | cons n more =>
    rw [push]
    split
    · rename_i hrole
      have hfold : (fold m n).role = n.role := hrole
      rw [said_cons, said_cons, said_cons, blocks_fold, hfold, hrole, List.map_append,
        List.append_assoc]
    · rfl

/-- **Folding loses and reorders nothing.** -/
theorem said_merge (ms : List Message) : said (merge ms) = said ms := by
  induction ms with
  | nil => rfl
  | cons m ms ih => rw [merge_cons, said_push, said_cons, said_cons, ih]

theorem isChain_push (h : ms.IsChain (·.role ≠ ·.role)) :
    (push m ms).IsChain (·.role ≠ ·.role) := by
  cases ms with
  | nil => exact List.isChain_singleton m
  | cons n more =>
    rw [push]
    split
    · rename_i hrole
      have hfold : (fold m n).role = n.role := hrole
      obtain ⟨hhead, hmore⟩ := List.isChain_cons.1 h
      exact List.isChain_cons.2 ⟨fun k hk => hfold ▸ hhead k hk, hmore⟩
    · rename_i hrole
      exact List.isChain_cons_cons.2 ⟨hrole, h⟩

/-- **No two neighbours are of one role.** -/
theorem isChain_merge (ms : List Message) : (merge ms).IsChain (·.role ≠ ·.role) := by
  induction ms with
  | nil => exact List.isChain_nil
  | cons m ms ih => exact isChain_push ih

theorem role_of_mem_push (h : n ∈ push m ms) : n.role = m.role ∨ n ∈ ms := by
  cases ms with
  | nil => exact .inl (congrArg Message.role (List.mem_singleton.1 h))
  | cons k more =>
    rw [push] at h
    split at h
    all_goals rcases List.mem_cons.1 h with rfl | h
    · exact .inl rfl
    · exact .inr (List.mem_cons_of_mem _ h)
    · exact .inl rfl
    · exact .inr h

/-- No role is new. -/
theorem exists_role_of_mem_merge (h : m ∈ merge ms) : ∃ n ∈ ms, n.role = m.role := by
  induction ms with
  | nil => cases h
  | cons k ms ih =>
    rcases role_of_mem_push h with hrole | hm
    · exact ⟨k, List.mem_cons_self, hrole.symm⟩
    · obtain ⟨n, hn, hrole⟩ := ih hm
      exact ⟨n, List.mem_cons_of_mem _ hn, hrole⟩

/-! ## Estimates -/

/-- The estimated tokens of some messages. -/
def tokens (ms : List Message) : Nat := (ms.map Message.tokens).foldr (· + ·) 0

theorem tokens_cons (m : Message) (ms : List Message) :
    tokens (m :: ms) = m.tokens + tokens ms := rfl

theorem tokens_append (ms more : List Message) :
    tokens (ms ++ more) = tokens ms + tokens more := by
  induction ms with
  | nil => exact (Nat.zero_add _).symm
  | cons m ms ih => rw [List.cons_append, tokens_cons, tokens_cons, ih, Nat.add_assoc]

theorem bytes_toBlocks (c : Model.Content) : (Content.blocks c.toBlocks).bytes = c.bytes := by
  cases c <;> rfl

theorem bytes_blocks_append (a b : List Block) :
    (Content.blocks (a ++ b)).bytes = (Content.blocks a).bytes + (Content.blocks b).bytes := by
  induction a with
  | nil => exact (Nat.zero_add _).symm
  | cons x a ih =>
    have hcons (l : List Block) : (Content.blocks (x :: l)).bytes =
        x.bytes + (Content.blocks l).bytes := rfl
    rw [List.cons_append, hcons, hcons, ih, Nat.add_assoc]

/-- **A message of two is never estimated higher than the two**: rounding down twice loses less
than what a message of its own costs. -/
theorem tokens_fold_le (m n : Message) : (fold m n).tokens ≤ m.tokens + n.tokens := by
  have hbytes : (fold m n).content.bytes = m.content.bytes + n.content.bytes := by
    rw [fold, bytes_blocks_append, bytes_toBlocks, bytes_toBlocks]
  rw [Message.tokens, Message.tokens, Message.tokens, hbytes]
  omega

theorem tokens_push_le (m : Message) (ms : List Message) :
    tokens (push m ms) ≤ m.tokens + tokens ms := by
  cases ms with
  | nil => exact Nat.le_refl _
  | cons n more =>
    rw [push]
    split
    · rw [tokens_cons, tokens_cons, ← Nat.add_assoc]
      exact Nat.add_le_add_right (tokens_fold_le m n) _
    · exact Nat.le_refl _

theorem tokens_merge_le (ms : List Message) : tokens (merge ms) ≤ tokens ms := by
  induction ms with
  | nil => exact Nat.le_refl _
  | cons m ms ih =>
    rw [merge_cons, tokens_cons]
    exact Nat.le_trans (tokens_push_le m _) (Nat.add_le_add_left ih _)

/-! ## Messages of turns -/

/-- What a turn says, and in which role. -/
def entry (t : Turn) : String × Block :=
  match t.content with
  | .text text => (if t.role = .user then "user" else "assistant", .text text)
  | .toolCall callId name arguments => ("assistant", .toolUse callId name arguments)
  | .toolResult callId _ output status =>
    ("user", .toolResult callId output (if status = .ok then none else some true))

/-- A turn makes a message of one block. -/
theorem blocks_message (t : Turn) :
    (message t).role = (entry t).1 ∧ (message t).blocks = [(entry t).2] := by
  rw [message, entry]
  cases t.content with
  | text text =>
    by_cases hrole : t.role = .user
    · simp only [if_pos hrole]
      exact ⟨rfl, rfl⟩
    · simp only [if_neg hrole]
      exact ⟨rfl, rfl⟩
  | toolCall => exact ⟨rfl, rfl⟩
  | toolResult => exact ⟨rfl, rfl⟩

theorem said_messages (ts : List Turn) : said (ts.map message) = ts.map entry := by
  induction ts with
  | nil => rfl
  | cons t ts ih =>
    obtain ⟨hrole, hblocks⟩ := blocks_message t
    rw [List.map_cons, said_cons, ih, hrole, hblocks]
    rfl

theorem role_message (t : Turn) : (message t).role = "user" ∨ (message t).role = "assistant" := by
  rw [(blocks_message t).1, entry]
  cases t.content with
  | text =>
    by_cases hrole : t.role = .user
    · exact .inl (if_pos hrole)
    · exact .inr (if_neg hrole)
  | toolCall => exact .inr rfl
  | toolResult => exact .inl rfl

theorem tokens_messages (ts : List Turn) : tokens (ts.map message) = total ts := by
  rw [tokens, List.map_map]
  rfl

/-! ## The request -/

/-- Before the transcript there are only instructions. -/
theorem role_of_mem_preamble {system : Option String} {tools : List ToolDefinition}
    (hm : m ∈ preamble system tools) : m.role = "system" := by
  rcases List.mem_append.1 hm with hm | hm
  · obtain ⟨text, -, rfl⟩ := Option.map_eq_some_iff.1 (Option.mem_toList.1 hm)
    rfl
  · split at hm
    · cases hm
    · rw [List.mem_singleton.1 hm]
      rfl

/-- **A request is the instructions and the window, folded.** -/
theorem build_eq (maxTokens : Nat) (system : Option String) (tools : List ToolDefinition)
    (ts : List Turn) :
    build maxTokens system tools ts = preamble system tools ++
      merge ((window (allowance maxTokens system tools) ts).map message) := by
  refine foldl_join (fun m hm => role_of_mem_preamble hm) fun n hn => ?_
  obtain ⟨t, -, rfl⟩ := List.mem_map.1 hn
  rcases role_message t with hrole | hrole <;> rw [hrole] <;> decide

/-- **A request loses and reorders nothing of the window.**  It is the prompt, if that is not
blank, the list of tools, if there are any, and messages of the user and the assistant in turns;
block by block these say what the turns of the window say, one block for each turn, in order and
each in its role. -/
theorem build_says_window (maxTokens : Nat) (system : Option String)
    (tools : List ToolDefinition) (ts : List Turn) :
    ∃ prompt declaration conversation,
      build maxTokens system tools ts = prompt ++ declaration ++ conversation ∧
      prompt = ((system.filter (!·.isAllBlank)).map .system).toList ∧
      declaration = (if tools.isEmpty then [] else [.system (toolList tools)]) ∧
      (∀ m ∈ conversation, m.role = "user" ∨ m.role = "assistant") ∧
      conversation.IsChain (·.role ≠ ·.role) ∧
      said conversation = (window (allowance maxTokens system tools) ts).map entry := by
  refine ⟨_, _, _, build_eq maxTokens system tools ts, rfl, rfl, fun m hm => ?_,
    isChain_merge _, ?_⟩
  · obtain ⟨n, hn, hrole⟩ := exists_role_of_mem_merge hm
    obtain ⟨t, -, rfl⟩ := List.mem_map.1 hn
    rw [← hrole]
    exact role_message t
  · rw [said_merge, said_messages]

/-- A request costs no more than its instructions and the turns that it shows. -/
theorem tokens_build_le (maxTokens : Nat) (system : Option String) (tools : List ToolDefinition)
    (ts : List Turn) :
    tokens (build maxTokens system tools ts) ≤ tokens (preamble system tools) +
      total (window (allowance maxTokens system tools) ts) := by
  rw [build_eq, tokens_append, ← tokens_messages]
  exact Nat.add_le_add_left (tokens_merge_le _) _

/-- A window that is not empty and fits into what the instructions leave shows that they left
something; so all of it is within the budget. -/
theorem tokens_build_le_of_fits {maxTokens : Nat} {system : Option String}
    {tools : List ToolDefinition} (hne : window (allowance maxTokens system tools) ts ≠ [])
    (hfits : total (window (allowance maxTokens system tools) ts) ≤
      allowance maxTokens system tools) :
    tokens (build maxTokens system tools ts) ≤ maxTokens := by
  have hle := tokens_build_le maxTokens system tools ts
  have hpos := total_pos hne
  have hleft : allowance maxTokens system tools = maxTokens - tokens (preamble system tools) := rfl
  omega

/-- **A request is within the budget, or shows no more than it has to**: then it starts with the
user's last turn. -/
theorem build_within_budget (h : ∃ t ∈ ts, t.role = .user) (maxTokens : Nat)
    (system : Option String) (tools : List ToolDefinition) :
    tokens (build maxTokens system tools ts) ≤ maxTokens ∨
      IsLastUser ts (windowStart (allowance maxTokens system tools) ts) := by
  obtain ⟨last, hlast⟩ := exists_isLastUser h
  set budget := allowance maxTokens system tools with hbudget
  have hle := windowStart_le budget hlast
  have hne : window budget ts ≠ [] :=
    List.drop_eq_nil_iff.not.2 (Nat.not_le.2 (Nat.lt_of_le_of_lt hle hlast.lt_length))
  rcases Nat.lt_or_ge budget (total ts) with hover | hfits
  · rcases (windowStart_isLeast hlast hover).1.fits with hfits | hstart
    · exact .inl (tokens_build_le_of_fits hne hfits)
    · exact .inr (hstart ▸ hlast)
  · refine .inl (tokens_build_le_of_fits hne ?_)
    rw [window, ← hbudget, windowStart_of_fits hfits]
    exact hfits

/-- **A transcript that does not fit** into what a prompt leaves is shown from the user's last turn
on. -/
theorem build_within_budget_of_long_prompt :
    let noon : Timestamp := ⟨1709294400, 0⟩
    let ts : List Turn := [.user "hello" noon, .assistant "hi" noon, .user "and now?" noon]
    let prompt := some "Answer in one word, if you can."
    (∃ t ∈ ts, t.role = .user) ∧ 16 < tokens (build 16 prompt [] ts) ∧
      IsLastUser ts (windowStart (allowance 16 prompt []) ts) := by
  intro noon ts prompt
  have huser : ∃ t ∈ ts, t.role = .user := ⟨_, List.mem_cons_self, rfl⟩
  have hover : 16 < tokens (build 16 prompt [] ts) := by decide +kernel
  exact ⟨huser, hover, (build_within_budget huser 16 prompt []).resolve_left (Nat.not_le.2 hover)⟩

end Context

end Parley
