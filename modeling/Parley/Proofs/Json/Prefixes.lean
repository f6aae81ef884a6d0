import Parley.Proofs.Json.Joining

/-!
# The beginning of a written object

A written object that was cut off before its end is no value (`read?_eq_none_of_append`).

The machine that builds trees is followed to the cut.  If the scanner stands between tokens there
and the tree is complete, no token is left for the rest, which then is white space; but an object
ends with a brace.  If the scanner stands inside a number or a word, the end of the text completes
that, and a number or a word completes a tree only if it is the whole text; but an object begins
with a brace.
-/

namespace Parley.Json

variable {text rest front back : List Char}

/-- A brace begins an object, and a brace ends it. -/
theorem exists_render_obj (fields : List (String × Json)) :
    ∃ inner, render (.obj fields) = '{' :: (inner ++ ['}']) :=
  ⟨_, by rw [render, renderFields_eq]⟩

/-- An object ends with a brace. -/
theorem getLast?_render_obj (fields : List (String × Json)) :
    (render (.obj fields)).getLast? = some '}' := by
  obtain ⟨inner, hinner⟩ := exists_render_obj fields
  rw [hinner, ← List.cons_append, List.getLast?_concat]

/-! ## Where a text ends -/

/-- The end of a text completes at most one token, which closes nothing. -/
theorem finish_cases {s : Scan} {last : List Token} (h : s.finish = some last) :
    s = .between ∧ last = [] ∨ ∃ t, last = [t] ∧ t ≠ .closeArray ∧ t ≠ .closeObject := by
  cases s with
  | between =>
    cases h
    exact .inl ⟨rfl, rfl⟩
  | inNumber chars =>
    obtain ⟨l, -, rfl⟩ := Option.map_eq_some_iff.1 h
    exact .inr ⟨_, rfl, nofun, nofun⟩
  | inWord chars =>
    obtain ⟨t, ht, rfl⟩ := Option.map_eq_some_iff.1 h
    refine .inr ⟨t, rfl, ?_⟩
    unfold wordToken? at ht
    split at ht <;> cases ht <;> exact ⟨nofun, nofun⟩
  | _ => cases h

/-- The tokens of a text are those completed on the way, and what its end completes. -/
theorem tokens?_eq_after (text : List Char) :
    tokens? text = (Scan.between.after text).bind fun (s, done) => s.finish.map (done ++ ·) := by
  have happend := run_append .between text []
  rw [List.append_nil] at happend
  exact happend

/-- Only white space has no tokens. -/
theorem isSpace_of_tokens? (h : tokens? text = some []) : ∀ c ∈ text, isSpace c := by
  rw [tokens?_eq_after] at h
  obtain ⟨⟨s, done⟩, hafter, h⟩ := Option.bind_eq_some_iff.1 h
  obtain ⟨last, hlast, hnil⟩ := Option.map_eq_some_iff.1 h
  obtain ⟨rfl, rfl⟩ := List.append_eq_nil_iff.1 hnil
  rcases finish_cases hlast with ⟨rfl, -⟩ | ⟨t, hnil, -⟩
  · exact (isSpace_of_after hafter).2
  · cases hnil

namespace Tree

/-- Nothing follows a complete tree. -/
theorem eq_nil_of_complete {t : Tree} {s : Build} {tokens : List Token}
    (h : tokens.foldlM Build.step (.complete t) = some s) : tokens = [] := by
  cases tokens with
  | nil => rfl
  | cons token tokens => cases h

/-- A token that completes the tree is the whole text or closes a container. -/
theorem eq_value_nil_of_step {s : Build} {token : Token} {t : Tree}
    (h : s.step token = some (.complete t)) (harray : token ≠ .closeArray)
    (hobject : token ≠ .closeObject) : s = .value [] := by
  have hstart {stack : List Frame} (h : Build.start stack token = some (.complete t)) :
      stack = [] := by
    rcases stack with _ | ⟨_ | _, stack⟩
    · rfl
    all_goals
      cases token <;> cases h
  cases s with
  | value stack => rw [hstart h]
  | firstItem stack =>
    rw [awaits_firstItem stack token harray] at h
    cases hstart h
  | _ =>
    cases token with
    | closeArray => exact absurd rfl harray
    | closeObject => exact absurd rfl hobject
    | _ => cases h

/-- The tokens of a text that is a tree. -/
theorem exists_tokens {text : String} {t : Tree} (h : read? text = some t) :
    ∃ tokens, tokens? text.toList = some tokens ∧
      tokens.foldlM Build.step (.value []) = some (.complete t) := by
  rw [read?] at h
  obtain ⟨tokens, htokens, h⟩ := Option.bind_eq_some_iff.1 h
  refine ⟨tokens, htokens, ?_⟩
  rw [ofTokens?] at h
  split at h
  · rename_i hcomplete
    cases h
    exact hcomplete
  · cases h

end Tree

/-! ## Cut off objects -/

/-- The first character of an object is a token. -/
theorem ne_nil_of_after {s : Scan} {done : List Token}
    (h : Scan.between.after ('{' :: front) = some (s, done)) : done ≠ [] := by
  rw [Scan.after] at h
  obtain ⟨⟨s', more⟩, hstep, h⟩ := Option.bind_eq_some_iff.1 h
  obtain ⟨⟨s'', more'⟩, -, hdone⟩ := Option.map_eq_some_iff.1 h
  cases Option.some.inj hstep
  rw [← (Prod.mk.inj hdone).2]
  exact List.cons_ne_nil _ _

/-- **An object that is cut off before its end is no value.** -/
theorem read?_eq_none_of_append {fields : List (String × Json)} (hexact : (obj fields).Exact)
    (h : front ++ back = render (.obj fields)) (hback : back ≠ []) :
    Tree.read? (String.ofList front) = none := by
  -- the tokens of the whole object, taken up at the cut
  obtain ⟨whole, hwhole, hfold⟩ := Tree.exists_tokens (read?_compact hexact)
  rw [compact, String.toList_ofList, ← h, tokens?, run_append] at hwhole
  obtain ⟨⟨s, done⟩, hafter, hrun⟩ := Option.bind_eq_some_iff.1 hwhole
  obtain ⟨more, hmore, rfl⟩ := Option.map_eq_some_iff.1 hrun
  rw [List.foldlM_append] at hfold
  obtain ⟨b, hdone, hfold⟩ := Option.bind_eq_some_iff.1 hfold
  -- the tokens of the beginning, if that is a value
  refine Option.eq_none_iff_forall_ne_some.2 fun t ht => ?_
  obtain ⟨tokens, htokens, hcomplete⟩ := Tree.exists_tokens ht
  rw [String.toList_ofList, tokens?_eq_after, hafter, Option.bind_some] at htokens
  obtain ⟨last, hlast, rfl⟩ := Option.map_eq_some_iff.1 htokens
  rw [List.foldlM_append, hdone] at hcomplete
  obtain ⟨inner, hinner⟩ := exists_render_obj fields
  rcases finish_cases hlast with ⟨rfl, rfl⟩ | ⟨token, rfl, harray, hobject⟩
  · -- between tokens: nothing is left but white space
    cases hcomplete
    rw [Tree.eq_nil_of_complete hfold] at hmore
    have hspace := isSpace_of_tokens? hmore
    have hend : back.getLast? = some '}' := by
      rw [← getLast?_render_obj fields, ← h, List.getLast?_append,
        Option.or_of_isSome (List.getLast?_isSome.2 hback)]
    cases hspace '}' (List.mem_of_getLast? hend)
  · -- inside a number or a word: that is the whole text
    have hstep : b.step token = some (.complete t) := by simpa using hcomplete
    cases Tree.eq_value_nil_of_step hstep harray hobject
    have hnone := Tree.eq_nil_of_foldlM hdone
    cases front with
    | nil =>
      cases hafter
      cases hlast
    | cons c front =>
      rw [hinner, List.cons_append] at h
      cases (List.cons.inj h).1
      exact ne_nil_of_after hafter hnone

end Parley.Json
