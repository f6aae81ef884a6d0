import Parley.Proofs.Json.Reading

/-!
# Text in front of a written object

A written object that comes after other text is hardly ever read with it: only white space may
stand before it (`isSpace_of_read?`), as long as the name of its first field is no word of JSON.

The scanner is taken through the text in front (`Scan.after`).  If that ends inside a string, the
object's first quote ends the string, and the name that follows is no token; anything else that it
ends in goes on as between tokens.  So the tokens of the text in front, if it has any, come before
those of the object, and no text has a value that is followed by another one.
-/

namespace Parley.Json

variable {c : Char} {text rest : List Char}

/-! ## The scanner after a text -/

/-- Where the machine stands after a text, with the tokens that were completed. -/
def Scan.after (s : Scan) : List Char → Option (Scan × List Token)
  | [] => some (s, [])
  | c :: rest =>
    (s.step c).bind fun (s, done) => (s.after rest).map fun (s, more) => (s, done ++ more)

/-- **The machine goes on from where a text left it.** -/
theorem run_append (s : Scan) (text rest : List Char) :
    s.run (text ++ rest) = (s.after text).bind fun (s, done) => (s.run rest).map (done ++ ·) := by
  induction text generalizing s with
  | nil =>
    rw [List.nil_append, Scan.after, Option.bind_some]
    dsimp only
    cases s.run rest <;> rfl
  | cons c text ih =>
    rw [List.cons_append, run_cons, Scan.after]
    rcases s.step c with _ | ⟨s', done⟩
    · rfl
    · dsimp only [Option.bind_some]
      rw [ih]
      rcases s'.after text with _ | ⟨s'', more⟩
      · rfl
      · dsimp only [Option.bind_some, Option.map_some]
        cases s''.run rest with
        | none => rfl
        | some tokens => exact congrArg some (List.append_assoc done more tokens).symm

theorem isSpace_of_scanFresh (h : scanFresh c = some (.between, [])) : isSpace c := by
  unfold scanFresh at h
  split_ifs at h with hspace <;> first | exact hspace | cases h

/-- What ends a number or a word completes a token. -/
theorem ne_of_completes {α : Type} (found : Option α) (token : α → Token) :
    (found.bind fun a => (scanFresh c).bind fun (s, more) => some (s, token a :: more)) ≠
      some (.between, []) := by
  intro h
  obtain ⟨a, -, h⟩ := Option.bind_eq_some_iff.1 h
  obtain ⟨⟨s, more⟩, -, h⟩ := Option.bind_eq_some_iff.1 h
  exact List.cons_ne_nil _ _ (Prod.mk.inj (Option.some.inj h)).2

/-- Only white space leaves the machine between tokens without completing one. -/
theorem isSpace_of_step {s : Scan} (h : s.step c = some (.between, [])) :
    s = .between ∧ isSpace c := by
  cases s with
  | between => exact ⟨rfl, isSpace_of_scanFresh h⟩
  | inString d high =>
    rw [Scan.step] at h
    split_ifs at h <;> cases h
  | inEscape d high =>
    rw [Scan.step] at h
    split_ifs at h
    · cases h
    · obtain ⟨e, -, he⟩ := Option.map_eq_some_iff.1 h
      cases he
  | inCode d high value left =>
    rw [Scan.step] at h
    obtain ⟨n, -, hn⟩ := Option.map_eq_some_iff.1 h
    dsimp only at hn
    split_ifs at hn <;> cases hn
  | inNumber chars =>
    rw [Scan.step] at h
    split_ifs at h
    · cases h
    · exact absurd h (ne_of_completes _ _)
  | inWord chars =>
    rw [Scan.step] at h
    split_ifs at h
    · cases h
    · exact absurd h (ne_of_completes _ id)

theorem isSpace_of_after {s : Scan} (h : s.after text = some (.between, [])) :
    s = .between ∧ ∀ c ∈ text, isSpace c := by
  induction text generalizing s with
  | nil =>
    cases h
    exact ⟨rfl, nofun⟩
  | cons c text ih =>
    rw [Scan.after] at h
    obtain ⟨⟨s', done⟩, hstep, h⟩ := Option.bind_eq_some_iff.1 h
    obtain ⟨⟨s'', more⟩, hafter, h⟩ := Option.map_eq_some_iff.1 h
    obtain ⟨rfl, hdone⟩ := Prod.mk.inj h
    obtain ⟨rfl, rfl⟩ := List.append_eq_nil_iff.1 hdone
    obtain ⟨rfl, htext⟩ := ih hafter
    obtain ⟨rfl, hc⟩ := isSpace_of_step hstep
    exact ⟨rfl, List.forall_mem_cons.2 ⟨hc, htext⟩⟩

/-! ## The scanner before an object -/

/-- A text that starts as an object does whose first name is a word, but no word of JSON. -/
def Named (text : List Char) : Prop :=
  ∃ c word more, text = '{' :: '"' :: c :: word ++ '"' :: more ∧
    scanFresh c = some (.inWord [c], []) ∧ word.all isWordChar ∧
    wordToken? (c :: word) = none

theorem stops_of_named (h : Named text) : Stops text := by
  obtain ⟨c, word, more, rfl, -⟩ := h
  exact stops_cons rfl rfl

/-- The first quote of such a text ends a string in which the text starts, and the name is no
token. -/
theorem run_inString_of_named (h : Named text) (d : StringDraft) (high : Option Nat) :
    (Scan.inString d high).run text = none := by
  obtain ⟨c, word, more, rfl, hstart, hword, hnone⟩ := h
  have hopen : (Scan.inString d high).step '{' =
      some (.inString ((d.settle high).push '{') none, []) := rfl
  have hclose : (Scan.inString ((d.settle high).push '{') none).step '"' =
      some (.between, [.string (((d.settle high).push '{').settle none).text]) := rfl
  have hname : (Scan.inWord (word.reverse ++ [c])).run ('"' :: more) = none := by
    have hreverse : wordToken? (word.reverse ++ [c]).reverse = none := by
      rw [List.reverse_append, List.reverse_reverse]
      exact hnone
    rw [run_cons, Scan.step, hreverse]
    rfl
  have hfirst : Scan.between.step c = some (.inWord [c], []) := hstart
  rw [List.cons_append, run_cons_of_silent hopen, List.cons_append, run_cons_of_step hclose,
    List.cons_append, run_cons_of_silent hfirst,
    run_gathered fun d hd => step_inWord (List.all_eq_true.1 hword d hd), hname]
  rfl

/-- **Before such a text the machine completes what it is in**, and then the text has its own
tokens; between tokens there is nothing to complete. -/
theorem run_of_named (h : Named text) {s : Scan} {tokens : List Token}
    (hrun : s.run text = some tokens) :
    ∃ lead own, tokens? text = some own ∧ tokens = lead ++ own ∧ (lead = [] → s = .between) := by
  have hcompletes {t : Token} (hrun : (tokens? text).map (t :: ·) = some tokens) :
      ∃ lead own, tokens? text = some own ∧ tokens = lead ++ own ∧ (lead = [] → s = .between) := by
    obtain ⟨own, hown, rfl⟩ := Option.map_eq_some_iff.1 hrun
    exact ⟨[t], own, hown, rfl, nofun⟩
  have hopen {s : Scan} (hstep : s.step '{' = none) : s.run text ≠ some tokens := by
    obtain ⟨c, word, more, rfl, -⟩ := h
    rw [List.cons_append, run_cons, hstep]
    exact nofun
  cases s with
  | between => exact ⟨[], tokens, hrun, rfl, fun _ => rfl⟩
  | inString d high =>
    rw [run_inString_of_named h] at hrun
    cases hrun
  | inEscape d high => exact absurd hrun (hopen rfl)
  | inCode d high value left => exact absurd hrun (hopen rfl)
  | inNumber chars =>
    cases hl : Decimal.Literal.ofChars? chars.reverse with
    | some l =>
      rw [run_inNumber_stop hl (stops_of_named h)] at hrun
      exact hcompletes hrun
    | none =>
      refine absurd hrun (hopen ?_)
      rw [Scan.step, hl]
      rfl
  | inWord chars =>
    cases ht : wordToken? chars.reverse with
    | some t =>
      rw [run_inWord_stop ht (stops_of_named h)] at hrun
      exact hcompletes hrun
    | none =>
      refine absurd hrun (hopen ?_)
      rw [Scan.step, ht]
      rfl

/-! ## The builder before an object -/

namespace Tree

theorem put_ne_value_nil (t : Tree) (stack : List Frame) : Build.put t stack ≠ .value [] := by
  rcases stack with _ | ⟨_ | _, stack⟩ <;> (intro h; cases h)

theorem start_ne_value_nil (stack : List Frame) (t : Token) :
    Build.start stack t ≠ some (.value []) := by
  unfold Build.start
  split
  all_goals
    intro h
    first
      | cases h
      | exact put_ne_value_nil _ _ (Option.some.inj h)

/-- No token takes the machine back to where it awaits the whole text. -/
theorem step_ne_value_nil (s : Build) (t : Token) : s.step t ≠ some (.value []) := by
  unfold Build.step
  split
  all_goals
    intro h
    first
      | exact start_ne_value_nil _ _ h
      | exact put_ne_value_nil _ _ (Option.some.inj h)
      | cases h

theorem eq_nil_of_foldlM {s : Build} {tokens : List Token}
    (h : tokens.foldlM Build.step s = some (.value [])) : tokens = [] := by
  rcases List.eq_nil_or_concat tokens with rfl | ⟨before, t, rfl⟩
  · rfl
  · rw [List.concat_eq_append, List.foldlM_append] at h
    obtain ⟨s', -, hlast⟩ := Option.bind_eq_some_iff.1 h
    obtain ⟨s'', hstep, hnil⟩ := Option.bind_eq_some_iff.1 hlast
    cases hnil
    exact absurd hstep (step_ne_value_nil s' t)

/-- **A text that an object completes is that object.** -/
theorem eq_value_nil_of_complete {j : Json} (hexact : j.Exact) (hnamed : Named j.render)
    {s : Build} {t : Tree} (h : s.run j.render = some (.complete t)) : s = .value [] := by
  have hobject (hstep : s.step .openObject = none) : s.run j.render ≠ some (.complete t) := by
    obtain ⟨c, word, more, hrender, -⟩ := hnamed
    have hrun (rest : List Char) : s.run (['{'] ++ rest) = none := by
      rw [run_token (tokens?_symbol rfl), hstep, Option.bind_none]
    rw [hrender, List.cons_append]
    intro hcomplete
    rw [← List.singleton_append, hrun] at hcomplete
    cases hcomplete
  have hreads {stack : List Frame} (hs : s.Awaits stack) :
      Build.put j.tree stack = .complete t := by
    have hrun := reads_render hexact hs stops_nil
    rw [List.append_nil, h, run_nil] at hrun
    exact (Option.some.inj hrun).symm
  cases s with
  | value stack =>
    have hput := hreads (awaits_value stack)
    rcases stack with _ | ⟨_ | _, stack⟩
    · rfl
    · cases hput
    · cases hput
  | firstItem stack => cases hreads (awaits_firstItem stack)
  | _ => exact absurd h (hobject rfl)

end Tree

/-- White space before a value is passed over. -/
theorem read?_of_spaces {front : List Char} {j : Json} (hexact : j.Exact)
    (hfront : ∀ c ∈ front, isSpace c) :
    Tree.read? (String.ofList (front ++ j.render)) = some j.tree := by
  have hrun := (reads_render hexact).lead hfront (Tree.awaits_value []) stops_nil
  rw [List.append_nil] at hrun
  rw [Tree.read?_eq_run, String.toList_ofList, hrun]
  rfl

/-- **Only white space stands before an object** in a text that can be read, if the object's first
name is no word of JSON. -/
theorem isSpace_of_read? {front : List Char} {j : Json} {t : Tree} (hexact : j.Exact)
    (hnamed : Named j.render)
    (h : Tree.read? (String.ofList (front ++ j.render)) = some t) : ∀ c ∈ front, isSpace c := by
  rw [Tree.read?, String.toList_ofList] at h
  obtain ⟨tokens, htokens, h⟩ := Option.bind_eq_some_iff.1 h
  rw [tokens?, run_append] at htokens
  obtain ⟨⟨s, done⟩, hafter, hrun⟩ := Option.bind_eq_some_iff.1 htokens
  obtain ⟨more, hmore, rfl⟩ := Option.map_eq_some_iff.1 hrun
  obtain ⟨lead, own, hown, rfl, hbetween⟩ := run_of_named hnamed hmore
  have hbuild : ∃ s', (done ++ lead).foldlM Tree.Build.step (.value []) = some s' ∧
      own.foldlM Tree.Build.step s' = some (.complete t) := by
    rw [← List.append_assoc, Tree.ofTokens?, List.foldlM_append] at h
    split at h
    · rename_i hcomplete
      cases h
      exact Option.bind_eq_some_iff.1 hcomplete
    · cases h
  obtain ⟨s', hfront, hcomplete⟩ := hbuild
  have hrun : s'.run j.render = some (.complete t) := by
    rw [Tree.Build.run, hown]
    exact hcomplete
  rw [Tree.eq_value_nil_of_complete hexact hnamed hrun] at hfront
  obtain ⟨rfl, rfl⟩ := List.append_eq_nil_iff.1 (Tree.eq_nil_of_foldlM hfront)
  rw [hbetween rfl] at hafter
  exact (isSpace_of_after hafter).2

end Parley.Json
