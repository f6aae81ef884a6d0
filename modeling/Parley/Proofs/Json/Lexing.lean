import Mathlib.Tactic.SplitIfs
import Parley.Json.Token
import Parley.Proofs.Decimal.Digits

/-!
# The tokens of written values

What the printer writes, the scanner cuts into the tokens that were meant: a quoted string is one
token with the string's text (`tokens?_quoted`), an integer is one number (`tokens?_intText`), and
so are the three words (`tokens?_word`).  Numbers and words end where the next character is of
another kind (`Stops`), which in a JSON text it always is.

Each statement is about a text that goes on with `rest`, and says that the tokens of the text are
the written ones and then those of `rest`.
-/

namespace Parley.Json

variable {c : Char} {rest : List Char}

/-! ## The scanner, one character at a time -/

theorem run_cons (s : Scan) (c : Char) (rest : List Char) :
    s.run (c :: rest) = (s.step c).bind fun (s, done) => (s.run rest).map (done ++ ·) := by
  rw [Scan.run]
  rcases s.step c with _ | ⟨s, done⟩
  · rfl
  · dsimp only [Option.bind_some]
    rcases s.run rest with _ | more <;> rfl

theorem run_cons_of_step {s u : Scan} {done : List Token} (h : s.step c = some (u, done)) :
    s.run (c :: rest) = (u.run rest).map (done ++ ·) := by
  rw [run_cons, h]
  rfl

/-- A step that completes no token. -/
theorem run_cons_of_silent {s u : Scan} (h : s.step c = some (u, [])) :
    s.run (c :: rest) = u.run rest := by
  rw [run_cons_of_step h]
  cases u.run rest <;> rfl

/-- A character that is a token. -/
theorem tokens?_symbol {t : Token} (h : scanFresh c = some (.between, [t])) :
    tokens? (c :: rest) = (tokens? rest).map (t :: ·) :=
  run_cons_of_step (s := .between) h

/-- White space between tokens is passed over. -/
theorem tokens?_space (h : isSpace c) : tokens? (c :: rest) = tokens? rest :=
  run_cons_of_silent (s := .between) (if_pos h)

theorem tokens?_spaces {spaces : List Char} (h : ∀ c ∈ spaces, isSpace c) :
    tokens? (spaces ++ rest) = tokens? rest := by
  induction spaces with
  | nil => rfl
  | cons c spaces ih =>
    rw [List.cons_append, tokens?_space (h c List.mem_cons_self),
      ih fun d hd => h d (List.mem_cons_of_mem _ hd)]

/-! ## Strings -/

theorem hexValue?_hexDigit {n : Nat} (h : n < 16) : hexValue? (hexDigit n) = some n := by
  have hall : ∀ m : Fin 16, hexValue? (hexDigit m) = some m.val := by decide
  exact hall ⟨n, h⟩

/-- A digit of a code that is not the last. -/
theorem run_inCode_more {d : StringDraft} {value left h : Nat} (hc : hexValue? c = some h)
    (hleft : 1 < left) :
    (Scan.inCode d none value left).run (c :: rest) =
      (Scan.inCode d none (value * 16 + h) (left - 1)).run rest := by
  refine run_cons_of_silent ?_
  rw [Scan.step, hc, Option.map_some, if_neg (by omega)]

/-- The last digit of the code of a control character. -/
theorem run_inCode_last {d : StringDraft} {value h : Nat} (hc : hexValue? c = some h)
    (hcode : value * 16 + h < 32) :
    (Scan.inCode d none value 1).run (c :: rest) =
      (Scan.inString (d.push (Char.ofNat (value * 16 + h))) none).run rest := by
  refine run_cons_of_silent ?_
  have hpush : d.pushCode none (value * 16 + h) = (d.push (Char.ofNat (value * 16 + h)), none) := by
    rw [StringDraft.pushCode, if_neg (by omega), if_neg (by omega)]
  rw [Scan.step, hc, Option.map_some, if_pos (by omega), hpush]

/-- A control character written as a code. -/
theorem run_inString_code {n : Nat} (hn : n < 32) (d : StringDraft) (rest : List Char) :
    (Scan.inString d none).run
        ('\\' :: 'u' :: '0' :: '0' :: hexDigit (n / 16) :: hexDigit (n % 16) :: rest) =
      (Scan.inString (d.push (Char.ofNat n)) none).run rest := by
  have hzero : hexValue? '0' = some 0 := rfl
  have hhigh := hexValue?_hexDigit (n := n / 16) (by omega)
  have hlow := hexValue?_hexDigit (n := n % 16) (by omega)
  have hvalue : (((0 * 16 + 0) * 16 + 0) * 16 + n / 16) * 16 + n % 16 = n := by omega
  rw [run_cons_of_silent (u := .inEscape d none) rfl,
    run_cons_of_silent (u := .inCode d none 0 4) rfl, run_inCode_more hzero (by decide),
    run_inCode_more hzero (by decide), run_inCode_more hhigh (by decide),
    run_inCode_last hlow (by omega), hvalue]

/-- **A character of a string is read back from its written form.** -/
theorem run_inString_escape (c : Char) (d : StringDraft) :
    (Scan.inString d none).run (escape c ++ rest) = (Scan.inString (d.push c) none).run rest := by
  have hletter {e l : Char} (hl : l ≠ 'u') (h : unescape? l = some e) :
      (Scan.inString d none).run ('\\' :: l :: rest) =
        (Scan.inString (d.push e) none).run rest := by
    have hstep : (Scan.inEscape d none).step l = some (.inString (d.push e) none, []) := by
      rw [Scan.step, if_neg hl, h]
      rfl
    rw [run_cons_of_silent (u := .inEscape d none) rfl, run_cons_of_silent hstep]
  unfold escape
  split_ifs with hquote hslash hfeed hreturn htab hback hform hcontrol
  · subst hquote
    exact hletter (by decide) rfl
  · subst hslash
    exact hletter (by decide) rfl
  · subst hfeed
    exact hletter (by decide) rfl
  · subst hreturn
    exact hletter (by decide) rfl
  · subst htab
    exact hletter (by decide) rfl
  · have hc : c = Char.ofNat 8 := by rw [← hback, Char.ofNat_toNat]
    rw [hc]
    exact hletter (by decide) rfl
  · have hc : c = Char.ofNat 12 := by rw [← hform, Char.ofNat_toNat]
    rw [hc]
    exact hletter (by decide) rfl
  · have hcode := run_inString_code hcontrol d rest
    rw [Char.ofNat_toNat] at hcode
    exact hcode
  · refine run_cons_of_silent ?_
    rw [Scan.step, if_neg hquote, if_neg hslash, if_neg hcontrol]
    rfl

theorem run_inString (text : List Char) (d : StringDraft) :
    (Scan.inString d none).run (text.flatMap escape ++ rest) =
      (Scan.inString { d with chars := text.reverse ++ d.chars } none).run rest := by
  induction text generalizing d with
  | nil => rfl
  | cons c text ih =>
    rw [List.flatMap_cons, List.append_assoc, run_inString_escape, ih, StringDraft.push,
      List.reverse_cons, List.append_assoc, List.singleton_append]

/-- **A quoted string is one token, with its text.** -/
theorem tokens?_quoted (s : String) :
    tokens? (quoted s ++ rest) = (tokens? rest).map (.string (some s) :: ·) := by
  have hclose (d : StringDraft) :
      (Scan.inString d none).step '"' = some (.between, [.string d.text]) := rfl
  have htext : (⟨s.toList.reverse ++ [], true⟩ : StringDraft).text = some s := by
    rw [StringDraft.text, if_pos rfl, List.append_nil, List.reverse_reverse, String.ofList_toList]
  rw [quoted, List.append_assoc, List.cons_append, tokens?,
    run_cons_of_silent (u := .inString .empty none) rfl, run_inString, StringDraft.empty,
    List.singleton_append, run_cons_of_step (hclose _), htext]
  rfl

/-! ## Numbers and words -/

/-- A text before which a number or a word ends. -/
def Stops (rest : List Char) : Prop :=
  ∀ c ∈ rest.head?, isNumberChar c = false ∧ isWordChar c = false

/-- A text whose characters are gathered, one after the other and without completing a token. -/
theorem run_gathered {gathering : List Char → Scan} {text : List Char}
    (h : ∀ c ∈ text, ∀ chars, (gathering chars).step c = some (gathering (c :: chars), []))
    (chars : List Char) :
    (gathering chars).run (text ++ rest) = (gathering (text.reverse ++ chars)).run rest := by
  induction text generalizing chars with
  | nil => rfl
  | cons c text ih =>
    obtain ⟨hc, htext⟩ := List.forall_mem_cons.1 h
    rw [List.cons_append, run_cons_of_silent (hc chars), ih htext, List.reverse_cons,
      List.append_assoc, List.singleton_append]

theorem step_inNumber (h : isNumberChar c) (chars : List Char) :
    (Scan.inNumber chars).step c = some (.inNumber (c :: chars), []) := by
  rw [Scan.step, if_pos h]

theorem step_inWord (h : isWordChar c) (chars : List Char) :
    (Scan.inWord chars).step c = some (.inWord (c :: chars), []) := by
  rw [Scan.step, if_pos h]

/-- A state that completes a token, whatever follows, and then goes on as between tokens. -/
theorem run_of_completes {s : Scan} {t : Token} (hfinish : s.finish = some [t])
    (hstep : ∀ c ∈ rest.head?, s.step c = (scanFresh c).map fun (s, more) => (s, t :: more)) :
    s.run rest = (tokens? rest).map (t :: ·) := by
  cases rest with
  | nil => rw [Scan.run, hfinish, tokens?, Scan.run, Scan.finish, Option.map_some]
  | cons c rest =>
    have hbetween : Scan.between.step c = scanFresh c := rfl
    rw [run_cons, hstep c rfl, tokens?, run_cons, hbetween]
    rcases scanFresh c with _ | ⟨s, done⟩
    · rfl
    · cases hs : s.run rest <;> simp [hs]

/-- A number ends where its characters do. -/
theorem run_inNumber_stop {chars : List Char} {l : Decimal.Literal}
    (hl : Decimal.Literal.ofChars? chars.reverse = some l) (hrest : Stops rest) :
    (Scan.inNumber chars).run rest = (tokens? rest).map (.number l :: ·) := by
  refine run_of_completes ?_ fun c hc => ?_
  · rw [Scan.finish, hl, Option.map_some]
  · rw [Scan.step, (hrest c hc).1, hl, if_neg Bool.false_ne_true]
    cases scanFresh c <;> rfl

/-- A word ends where its letters do. -/
theorem run_inWord_stop {chars : List Char} {t : Token} (ht : wordToken? chars.reverse = some t)
    (hrest : Stops rest) : (Scan.inWord chars).run rest = (tokens? rest).map (t :: ·) := by
  refine run_of_completes ?_ fun c hc => ?_
  · rw [Scan.finish, ht, Option.map_some]
  · rw [Scan.step, (hrest c hc).2, ht, if_neg Bool.false_ne_true]
    cases scanFresh c <;> rfl

theorem isNumberChar_of_isDigit (h : c.isDigit) : isNumberChar c := by
  rw [Char.isDigit, Bool.and_eq_true, decide_eq_true_eq, decide_eq_true_eq] at h
  have hdigit : ('0' ≤ c && c ≤ '9') = true := by
    rw [Bool.and_eq_true, decide_eq_true_eq, decide_eq_true_eq]
    exact h
  rw [isNumberChar, hdigit]
  rfl

theorem isNumberChar_of_mem_intText {i : Int} (h : c ∈ intText i) : isNumberChar c := by
  have hdigits (hc : c ∈ Decimal.natText i.natAbs) : isNumberChar c :=
    isNumberChar_of_isDigit (Decimal.isDigit_of_mem_natText hc)
  unfold intText at h
  split at h
  · rcases List.mem_cons.1 h with rfl | hc
    · rfl
    · exact hdigits hc
  · exact hdigits h

/-- A number starts no other token. -/
theorem scanFresh_of_isNumberChar (h : isNumberChar c) :
    scanFresh c = some (.inNumber [c], []) := by
  have hne {e : Char} (he : isNumberChar e = false) : c ≠ e := by
    rintro rfl
    rw [he] at h
    cases h
  have hspace : isSpace c = false := by
    simp only [isSpace, Bool.or_eq_false_iff, beq_eq_false_iff_ne]
    exact ⟨⟨⟨hne rfl, hne rfl⟩, hne rfl⟩, hne rfl⟩
  rw [scanFresh, hspace, if_neg Bool.false_ne_true, if_neg (hne rfl), if_neg (hne rfl),
    if_neg (hne rfl), if_neg (hne rfl), if_neg (hne rfl), if_neg (hne rfl), if_neg (hne rfl),
    if_pos h]

/-- **An integer is one token, its literal.** -/
theorem tokens?_intText (i : Int) (hrest : Stops rest) :
    tokens? (intText i ++ rest) = (tokens? rest).map (.number (.ofInt i) :: ·) := by
  have hliteral := Decimal.ofChars?_intText i
  have hchars := fun c => isNumberChar_of_mem_intText (i := i) (c := c)
  obtain ⟨c, text, htext⟩ : ∃ c text, intText i = c :: text := by
    cases h : intText i with
    | nil =>
      rw [h] at hliteral
      cases hliteral
    | cons c text => exact ⟨c, text, rfl⟩
  rw [htext] at hliteral hchars ⊢
  have hstart : Scan.between.step c = some (.inNumber [c], []) :=
    scanFresh_of_isNumberChar (hchars c List.mem_cons_self)
  have hreverse : Decimal.Literal.ofChars? (text.reverse ++ [c]).reverse = some (.ofInt i) := by
    rw [List.reverse_append, List.reverse_reverse]
    exact hliteral
  rw [tokens?, List.cons_append, run_cons_of_silent hstart,
    run_gathered fun d hd => step_inNumber (hchars d (List.mem_cons_of_mem _ hd)),
    run_inNumber_stop hreverse hrest]

/-- **A word is one token.** -/
theorem tokens?_word {text : List Char} {t : Token} (hletters : text.all isWordChar)
    (hstart : scanFresh c = some (.inWord [c], [])) (ht : wordToken? (c :: text) = some t)
    (hrest : Stops rest) : tokens? (c :: text ++ rest) = (tokens? rest).map (t :: ·) := by
  have hreverse : wordToken? (text.reverse ++ [c]).reverse = some t := by
    rw [List.reverse_append, List.reverse_reverse]
    exact ht
  have hfirst : Scan.between.step c = some (.inWord [c], []) := hstart
  rw [tokens?, List.cons_append, run_cons_of_silent hfirst,
    run_gathered fun d hd => step_inWord (List.all_eq_true.1 hletters d hd),
    run_inWord_stop hreverse hrest]

end Parley.Json
