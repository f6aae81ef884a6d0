import Mathlib.Computability.Language
import Parley.Proofs.Text.Blank
import Parley.Text.Slug

/-!
# Slugs are a normal form

The slugs are the words of `[a-z0-9]+(-[a-z0-9]+)*`, which is `Slug.language`.

What the pass over a lower-cased name comes to is said without it.  The name is cut at white space
and dashes; of each piece the letters and digits are kept; the pieces with anything left are the
*words* of the name (`slugWords`), and its slug is these words joined by dashes
(`slugLetters_eq`).  The words joined by dashes are just the language
(`Slug.mem_language_iff`), and a text of the language has the words that it is joined from
(`slugWords_intercalate`).  So every slug is of the language, every word of the language is its own
slug, and a name is called `session` when it has no word (`slug_normal_form`).

Of the lower case of a name only the letters and the breaks count: the rest may as well be missing
(`slugLetters_filter`), so nothing hangs on how it is lowered.
-/

open scoped Computability

namespace Parley.Text

variable {a c : Char} {out text rest : List Char} {words : List (List Char)}

/-! ## The language -/

namespace Slug

/-- The characters of `[a-z0-9]`. -/
def IsLetter (c : Char) : Prop := ('a' ≤ c ∧ c ≤ 'z') ∨ ('0' ≤ c ∧ c ≤ '9')

/-- `[a-z0-9]`. -/
def letter : Language Char := {w | ∃ c, IsLetter c ∧ w = [c]}

/-- `[a-z0-9]+`. -/
def word : Language Char := letter * letter∗

/-- `[a-z0-9]+(-[a-z0-9]+)*`. -/
def language : Language Char := word * ({['-']} * word)∗

/-- The words, each behind a dash. -/
def dashed (words : List (List Char)) : List Char := words.flatMap ('-' :: ·)

theorem isSlugLetter_iff : isSlugLetter c ↔ IsLetter c := by
  simp only [isSlugLetter, IsLetter, Bool.or_eq_true, Bool.and_eq_true, decide_eq_true_eq]

theorem intercalate_cons (w : List Char) (words : List (List Char)) :
    ['-'].intercalate (w :: words) = w ++ dashed words := by
  induction words generalizing w with
  | nil => rw [List.intercalate_singleton, dashed, List.flatMap_nil, List.append_nil]
  | cons v words ih =>
    rw [List.intercalate_cons_cons, ih, List.append_assoc]
    rfl

theorem mem_word_iff {w : List Char} : w ∈ word ↔ w ≠ [] ∧ ∀ c ∈ w, isSlugLetter c := by
  constructor
  · intro h
    obtain ⟨_, ⟨c, hc, rfl⟩, _, hrest, rfl⟩ := Language.mem_mul.1 h
    obtain ⟨letters, rfl, hletters⟩ := Language.mem_kstar.1 hrest
    refine ⟨List.cons_ne_nil _ _, List.forall_mem_cons.2 ⟨isSlugLetter_iff.2 hc, fun d hd => ?_⟩⟩
    obtain ⟨_, hmem, hd⟩ := List.mem_flatten.1 hd
    obtain ⟨e, he, rfl⟩ := hletters _ hmem
    rwa [List.mem_singleton.1 hd, isSlugLetter_iff]
  · rintro ⟨hne, hall⟩
    obtain ⟨c, rest, rfl⟩ := List.exists_cons_of_ne_nil hne
    obtain ⟨hc, hrest⟩ := List.forall_mem_cons.1 hall
    have hstar : rest ∈ letter∗ := by
      refine Language.mem_kstar.2 ⟨rest.map ([·]), ?_, ?_⟩
      · rw [← List.flatMap_def, List.flatMap_singleton']
      · intro w hw
        obtain ⟨d, hd, rfl⟩ := List.mem_map.1 hw
        exact ⟨d, isSlugLetter_iff.1 (hrest d hd), rfl⟩
    exact Language.mem_mul.2 ⟨[c], ⟨c, isSlugLetter_iff.1 hc, rfl⟩, rest, hstar, rfl⟩

theorem mem_kstar_dash_word_iff {w : List Char} :
    w ∈ ({['-']} * word)∗ ↔ ∃ words, (∀ v ∈ words, v ∈ word) ∧ w = dashed words := by
  constructor
  · intro h
    obtain ⟨parts, rfl, hparts⟩ := Language.mem_kstar.1 h
    clear h
    induction parts with
    | nil => exact ⟨[], List.forall_mem_nil _, rfl⟩
    | cons part parts ih =>
      obtain ⟨hpart, hparts⟩ := List.forall_mem_cons.1 hparts
      obtain ⟨words, hwords, hjoined⟩ := ih hparts
      obtain ⟨_, rfl, v, hv, rfl⟩ := Language.mem_mul.1 hpart
      refine ⟨v :: words, List.forall_mem_cons.2 ⟨hv, hwords⟩, ?_⟩
      rw [List.flatten_cons, hjoined]
      rfl
  · rintro ⟨words, hwords, rfl⟩
    refine Language.mem_kstar.2 ⟨words.map ('-' :: ·), List.flatMap_def, fun part hpart => ?_⟩
    obtain ⟨v, hv, rfl⟩ := List.mem_map.1 hpart
    exact Language.mem_mul.2 ⟨['-'], rfl, v, hwords v hv, rfl⟩

/-- **The language is the words joined by dashes**, of which there is one at least. -/
theorem mem_language_iff {w : List Char} :
    w ∈ language ↔ ∃ words ≠ [], (∀ v ∈ words, v ∈ word) ∧ w = ['-'].intercalate words := by
  constructor
  · intro h
    obtain ⟨v, hv, _, hrest, rfl⟩ := Language.mem_mul.1 h
    obtain ⟨words, hwords, rfl⟩ := mem_kstar_dash_word_iff.1 hrest
    exact ⟨v :: words, List.cons_ne_nil _ _, List.forall_mem_cons.2 ⟨hv, hwords⟩,
      (intercalate_cons v words).symm⟩
  · rintro ⟨words, hne, hall, rfl⟩
    obtain ⟨v, words, rfl⟩ := List.exists_cons_of_ne_nil hne
    obtain ⟨hv, hwords⟩ := List.forall_mem_cons.1 hall
    rw [intercalate_cons]
    exact Language.append_mem_mul hv (mem_kstar_dash_word_iff.2 ⟨words, hwords, rfl⟩)

/-- The words of the language are made of letters, digits and dashes. -/
theorem mem_of_mem_language {w : List Char} (hw : w ∈ language) (h : c ∈ w) :
    isSlugLetter c ∨ c = '-' := by
  obtain ⟨words, hne, hwords, rfl⟩ := mem_language_iff.1 hw
  obtain ⟨v, words, rfl⟩ := List.exists_cons_of_ne_nil hne
  obtain ⟨hv, hwords⟩ := List.forall_mem_cons.1 hwords
  rw [intercalate_cons, List.mem_append, dashed, List.mem_flatMap] at h
  rcases h with h | ⟨u, hu, h⟩
  · exact .inl ((mem_word_iff.1 hv).2 c h)
  · rcases List.mem_cons.1 h with rfl | h
    · exact .inr rfl
    · exact .inl ((mem_word_iff.1 (hwords u hu)).2 c h)

theorem ne_nil_of_mem_language {w : List Char} (h : w ∈ language) : w ≠ [] := by
  obtain ⟨v, hv, rest, -, rfl⟩ := Language.mem_mul.1 h
  exact List.append_ne_nil_of_left_ne_nil (mem_word_iff.1 hv).1 rest

end Slug

/-! ## Letters and breaks -/

theorem toNat_of_isSlugLetter (h : isSlugLetter c) :
    (97 ≤ c.toNat ∧ c.toNat ≤ 122) ∨ (48 ≤ c.toNat ∧ c.toNat ≤ 57) :=
  Slug.isSlugLetter_iff.1 h

theorem isBlank_of_isSlugLetter (h : isSlugLetter c) : isBlank c = false := by
  have hrange := toNat_of_isSlugLetter h
  exact isBlank_of_printable (by omega) (by omega)

theorem ne_dash_of_isSlugLetter (h : isSlugLetter c) : c ≠ '-' := by
  rintro rfl
  revert h
  decide

theorem isSlugBreak_of_isSlugLetter (h : isSlugLetter c) : isSlugBreak c = false := by
  rw [isSlugBreak, isBlank_of_isSlugLetter h, Bool.or_false]
  exact beq_eq_false_iff_ne.2 (ne_dash_of_isSlugLetter h)

theorem not_isLetter_of_isSlugBreak (h : isSlugBreak c) : ¬ Slug.IsLetter c := by
  intro hletter
  rw [isSlugBreak_of_isSlugLetter (Slug.isSlugLetter_iff.2 hletter)] at h
  cases h

theorem isSlugBreak_dash : isSlugBreak '-' := rfl

theorem isSlugBreak_of_isBlank (h : isBlank c) : isSlugBreak c := by
  rw [isSlugBreak, h, Bool.or_true]

/-- A character is a letter, or a break, or it is dropped. -/
theorem letter_or_break (c : Char) :
    isSlugLetter c ∨ isSlugBreak c ∨ isSlugLetter c = false ∧ isSlugBreak c = false := by
  cases isSlugLetter c <;> cases isSlugBreak c <;> decide

/-! ## Words -/

/-- The pieces of a text between breaks, without what is dropped. -/
def slugPieces (text : List Char) : List (List Char) :=
  (text.splitOnP isSlugBreak).map (·.filter isSlugLetter)

/-- The words of a text: the pieces that have anything in them. -/
def slugWords (text : List Char) : List (List Char) :=
  (slugPieces text).filter (· ≠ [])

theorem slugPieces_break (h : isSlugBreak c) : slugPieces (c :: rest) = [] :: slugPieces rest := by
  rw [slugPieces, List.splitOnP_cons_eq_if_modifyHead, if_pos h]
  rfl

theorem slugPieces_cons (h : isSlugBreak c = false) :
    slugPieces (c :: rest) =
      (slugPieces rest).modifyHead fun piece => if isSlugLetter c then c :: piece else piece := by
  obtain ⟨piece, pieces, hpieces⟩ :=
    List.exists_cons_of_ne_nil (List.splitOnP_ne_nil isSlugBreak rest)
  rw [slugPieces, slugPieces, List.splitOnP_cons_eq_if_modifyHead, h, hpieces]
  exact congrArg (· :: _) (List.filter_cons ..)

theorem slugPieces_letter (h : isSlugLetter c) :
    slugPieces (c :: rest) = (slugPieces rest).modifyHead (c :: ·) := by
  rw [slugPieces_cons (isSlugBreak_of_isSlugLetter h), h]
  rfl

theorem slugPieces_dropped (hletter : isSlugLetter c = false) (hbreak : isSlugBreak c = false) :
    slugPieces (c :: rest) = slugPieces rest := by
  rw [slugPieces_cons hbreak, hletter]
  exact congrFun List.modifyHead_id _

theorem slugWords_dropped (hletter : isSlugLetter c = false) (hbreak : isSlugBreak c = false) :
    slugWords (c :: rest) = slugWords rest := by
  rw [slugWords, slugPieces_dropped hletter hbreak, slugWords]

/-- A letter begins a word, and goes on with what follows it. -/
theorem slugWords_letter (h : isSlugLetter c) (rest : List Char) :
    ∃ piece pieces, slugPieces rest = piece :: pieces ∧
      slugWords (c :: rest) = (c :: piece) :: pieces.filter (· ≠ []) := by
  have hne : slugPieces rest ≠ [] :=
    mt List.map_eq_nil_iff.1 (List.splitOnP_ne_nil isSlugBreak rest)
  obtain ⟨piece, pieces, hpieces⟩ := List.exists_cons_of_ne_nil hne
  refine ⟨piece, pieces, hpieces, ?_⟩
  rw [slugWords, slugPieces_letter h, hpieces]
  rfl

/-- **No word goes over a break.** -/
theorem slugWords_append_break (h : isSlugBreak c) (s t : List Char) :
    slugWords (s ++ c :: t) = slugWords s ++ slugWords t := by
  rw [slugWords, slugPieces, List.splitOnP_append_cons s t h, List.map_append, List.filter_append]
  rfl

theorem slugWords_break (h : isSlugBreak c) : slugWords (c :: rest) = slugWords rest :=
  slugWords_append_break h [] rest

theorem mem_word_of_mem_slugWords {w : List Char} (h : w ∈ slugWords text) : w ∈ Slug.word := by
  obtain ⟨hpiece, hne⟩ := List.mem_filter.1 h
  obtain ⟨piece, -, rfl⟩ := List.mem_map.1 hpiece
  exact Slug.mem_word_iff.2 ⟨of_decide_eq_true hne, fun c hc => List.of_mem_filter hc⟩

/-- **The words have the letters of the text**, in their order. -/
theorem flatten_slugWords (text : List Char) :
    (slugWords text).flatten = text.filter isSlugLetter := by
  rw [slugWords, List.flatten_filter_ne_nil]
  induction text with
  | nil => rfl
  | cons c rest ih =>
    rcases letter_or_break c with hletter | hbreak | ⟨hletter, hbreak⟩
    · obtain ⟨piece, pieces, hpieces, -⟩ := slugWords_letter hletter rest
      rw [slugPieces_letter hletter, List.filter_cons_of_pos hletter, ← ih, hpieces]
      rfl
    · rw [slugPieces_break hbreak,
        List.filter_cons_of_neg (mt Slug.isSlugLetter_iff.1 (not_isLetter_of_isSlugBreak hbreak))]
      exact ih
    · rw [slugPieces_dropped hletter hbreak, List.filter_cons_of_neg (Bool.eq_false_iff.1 hletter)]
      exact ih

theorem slugWords_eq_nil_iff : slugWords text = [] ↔ ∀ c ∈ text, ¬ Slug.IsLetter c := by
  simp only [← Slug.isSlugLetter_iff]
  rw [← List.filter_eq_nil_iff, ← flatten_slugWords]
  constructor
  · intro h
    rw [h]
    rfl
  · intro h
    refine List.eq_nil_iff_forall_not_mem.2 fun w hw => ?_
    exact (Slug.mem_word_iff.1 (mem_word_of_mem_slugWords hw)).1 (List.flatten_eq_nil_iff.1 h w hw)

theorem slugWords_of_mem_word {w : List Char} (h : w ∈ Slug.word) : slugWords w = [w] := by
  obtain ⟨hne, hletters⟩ := Slug.mem_word_iff.1 h
  have hkept : w.filter isSlugLetter = w := List.filter_eq_self.2 hletters
  rw [slugWords, slugPieces,
    List.splitOnP_eq_singleton fun c hc => isSlugBreak_of_isSlugLetter (hletters c hc),
    List.map_singleton, hkept]
  exact List.filter_cons_of_pos (decide_eq_true hne)

/-- **A text joined from words has these words.** -/
theorem slugWords_intercalate (h : ∀ w ∈ words, w ∈ Slug.word) :
    slugWords (['-'].intercalate words) = words := by
  induction words with
  | nil => rfl
  | cons w words ih =>
    obtain ⟨hw, hwords⟩ := List.forall_mem_cons.1 h
    cases words with
    | nil => rw [List.intercalate_singleton, slugWords_of_mem_word hw]
    | cons v words =>
      rw [List.intercalate_cons_cons, List.append_assoc, List.singleton_append,
        slugWords_append_break isSlugBreak_dash, ih hwords, slugWords_of_mem_word hw]
      rfl

/-! ## The pass -/

theorem slugStep_letter (h : isSlugLetter c) : slugStep out c = c :: out := by
  rw [slugStep, isSlugBreak_of_isSlugLetter h, h]
  rfl

theorem slugStep_dropped (hletter : isSlugLetter c = false) (hbreak : isSlugBreak c = false) :
    slugStep out c = out := by
  rw [slugStep, hletter, hbreak]
  rfl

theorem slugStep_break_nil (h : isSlugBreak c) : slugStep [] c = [] := by
  rw [slugStep, if_pos h]
  rfl

theorem slugStep_break_dash (h : isSlugBreak c) : slugStep ('-' :: out) c = '-' :: out := by
  rw [slugStep, if_pos h]
  rfl

/-- A dash is written behind a letter. -/
theorem slugStep_break_letter (ha : isSlugLetter a) (h : isSlugBreak c) :
    slugStep (a :: out) c = '-' :: a :: out := by
  have hdash : (some a == some '-') = false :=
    beq_eq_false_iff_ne.2 (mt Option.some.inj (ne_dash_of_isSlugLetter ha))
  rw [slugStep, if_pos h, List.head?_cons, hdash]
  rfl

theorem slugEnd_letter (ha : isSlugLetter a) : slugEnd (a :: out) = (a :: out).reverse := by
  rw [slugEnd, List.dropWhile_cons_of_neg]
  exact mt beq_iff_eq.1 (ne_dash_of_isSlugLetter ha)

theorem slugEnd_dash : slugEnd ('-' :: out) = slugEnd out := rfl

/-- Pieces as they are written behind a letter: the first goes on with its word, and those after it
are words of their own. -/
def Slug.continued : List (List Char) → List Char
  | [] => []
  | piece :: pieces => piece ++ Slug.dashed (pieces.filter (· ≠ []))

/-- **What is written behind a letter**, with a dash behind it or without. -/
theorem slugEnd_foldl (ha : isSlugLetter a) (out text : List Char) :
    slugEnd (text.foldl slugStep (a :: out)) =
        (a :: out).reverse ++ Slug.continued (slugPieces text) ∧
      slugEnd (text.foldl slugStep ('-' :: a :: out)) =
        (a :: out).reverse ++ Slug.dashed (slugWords text) := by
  -- a letter leads from either to the first, a break to the second
  induction text generalizing a out with
  | nil =>
    have hend : slugEnd (a :: out) = (a :: out).reverse ++ [] := by
      rw [slugEnd_letter ha, List.append_nil]
    exact ⟨hend, slugEnd_dash.trans hend⟩
  | cons c rest ih =>
    rw [List.foldl_cons, List.foldl_cons]
    rcases letter_or_break c with hletter | hbreak | ⟨hletter, hbreak⟩
    · obtain ⟨piece, pieces, hpieces, hwords⟩ := slugWords_letter hletter rest
      rw [slugStep_letter hletter, slugStep_letter hletter, (ih hletter _).1, (ih hletter _).1,
        slugPieces_letter hletter, hwords, hpieces]
      constructor <;> simp [Slug.continued, Slug.dashed]
    · rw [slugStep_break_letter ha hbreak, slugStep_break_dash hbreak, (ih ha out).2,
        slugPieces_break hbreak, slugWords_break hbreak]
      exact ⟨rfl, rfl⟩
    · rw [slugStep_dropped hletter hbreak, slugStep_dropped hletter hbreak,
        slugPieces_dropped hletter hbreak, slugWords_dropped hletter hbreak]
      exact ih ha out

/-- **The pass joins the words by dashes.** -/
theorem slugLetters_eq (text : List Char) :
    slugLetters text = ['-'].intercalate (slugWords text) := by
  rw [slugLetters]
  -- nothing is written up to the first letter, and from there on it is behind a letter
  induction text with
  | nil => rfl
  | cons c rest ih =>
    rw [List.foldl_cons]
    rcases letter_or_break c with hletter | hbreak | ⟨hletter, hbreak⟩
    · obtain ⟨piece, pieces, hpieces, hwords⟩ := slugWords_letter hletter rest
      rw [slugStep_letter hletter, (slugEnd_foldl hletter [] rest).1, hpieces, hwords,
        Slug.intercalate_cons]
      rfl
    · rw [slugStep_break_nil hbreak, ih, slugWords_break hbreak]
    · rw [slugStep_dropped hletter hbreak, ih, slugWords_dropped hletter hbreak]

/-- **What the pass drops may be missing from the text.** -/
theorem slugLetters_filter (text : List Char) :
    slugLetters (text.filter fun c => isSlugLetter c || isSlugBreak c) = slugLetters text := by
  rw [slugLetters, List.foldl_filter, slugLetters]
  refine congrArg (fun step => slugEnd (text.foldl step [])) (funext fun out => funext fun c => ?_)
  split_ifs with hkept
  · rfl
  · obtain ⟨hletter, hbreak⟩ := Bool.or_eq_false_iff.1 (Bool.eq_false_iff.2 hkept)
    exact (slugStep_dropped hletter hbreak).symm

/-! ## Lower case -/

theorem slugLower_eq_self (h : c.toNat < 65 ∨ 90 < c.toNat) (hkelvin : c.toNat ≠ 0x212a)
    (hdotted : c.toNat ≠ 0x130) : slugLower c = [c] := by
  have hcapital : ¬ ('A' ≤ c && c ≤ 'Z') := by
    rw [Bool.and_eq_true, decide_eq_true_eq, decide_eq_true_eq]
    rintro ⟨hlow, hhigh⟩
    have hlow : 65 ≤ c.toNat := hlow
    have hhigh : c.toNat ≤ 90 := hhigh
    omega
  have hkelvin : c ≠ '\u212a' := by
    rintro rfl
    exact hkelvin rfl
  have hdotted : c ≠ '\u0130' := by
    rintro rfl
    exact hdotted rfl
  rw [slugLower, if_neg hcapital, if_neg hkelvin, if_neg hdotted]

theorem slugLower_of_isSlugLetter (h : isSlugLetter c) : slugLower c = [c] := by
  have hrange := toNat_of_isSlugLetter h
  exact slugLower_eq_self (by omega) (by omega) (by omega)

theorem slugLower_of_isBlank (h : isBlank c) : slugLower c = [c] := by
  simp only [isBlank, Bool.or_eq_true, Bool.and_eq_true, decide_eq_true_eq, beq_iff_eq] at h
  exact slugLower_eq_self (by omega) (by omega) (by omega)

theorem flatMap_slugLower_eq_self (h : ∀ c ∈ text, slugLower c = [c]) :
    text.flatMap slugLower = text := by
  rw [List.flatMap_def, List.map_congr_left h, ← List.flatMap_def, List.flatMap_singleton']

/-- White space has no part in the words beside it. -/
theorem slugWords_append_of_all {blank : List Char} (h : blank.all isBlank) (s : List Char) :
    slugWords (s ++ blank) = slugWords s := by
  cases blank with
  | nil => rw [List.append_nil]
  | cons b blank =>
    rw [List.all_cons, Bool.and_eq_true] at h
    have hnone : slugWords blank = [] := slugWords_eq_nil_iff.2 fun c hc =>
      not_isLetter_of_isSlugBreak (isSlugBreak_of_isBlank (List.all_eq_true.1 h.2 c hc))
    rw [slugWords_append_break (isSlugBreak_of_isBlank h.1), hnone, List.append_nil]

theorem slugWords_of_all_append {blank : List Char} (h : blank.all isBlank) (s : List Char) :
    slugWords (blank ++ s) = slugWords s := by
  induction blank with
  | nil => rfl
  | cons b blank ih =>
    rw [List.all_cons, Bool.and_eq_true] at h
    rw [List.cons_append, slugWords_break (isSlugBreak_of_isBlank h.1), ih h.2]

/-- **Trimming takes nothing from the words.** -/
theorem slugWords_trim (s : List Char) :
    slugWords ((trim s).flatMap slugLower) = slugWords (s.flatMap slugLower) := by
  have hblank {blank : List Char} (h : blank.all isBlank) : blank.flatMap slugLower = blank :=
    flatMap_slugLower_eq_self fun c hc => slugLower_of_isBlank (List.all_eq_true.1 h c hc)
  obtain ⟨before, after, hsplit, hbefore, hafter⟩ := exists_append_trim_append s
  conv_rhs => rw [hsplit]
  rw [List.flatMap_append, List.flatMap_append, hblank hbefore, hblank hafter,
    slugWords_of_all_append hbefore, slugWords_append_of_all hafter]

/-- Words joined by dashes are of the language. -/
theorem intercalate_slugWords_mem_language (h : slugWords text ≠ []) :
    ['-'].intercalate (slugWords text) ∈ Slug.language :=
  Slug.mem_language_iff.2 ⟨_, h, fun _ => mem_word_of_mem_slugWords, rfl⟩

/-- **A name without words is called `session`.** -/
theorem slug_of_no_words {name : String} (h : slugWords (name.toList.flatMap slugLower) = []) :
    slug name = "session" := by
  rw [slug, slugLetters_eq, slugWords_trim, h]
  rfl

/-- **The slug of a name is its words joined by dashes**, if there are any. -/
theorem toList_slug {name : String} (h : slugWords (name.toList.flatMap slugLower) ≠ []) :
    (slug name).toList = ['-'].intercalate (slugWords (name.toList.flatMap slugLower)) := by
  rw [slug, slugLetters_eq, slugWords_trim]
  split
  · rename_i hnone
    exact absurd hnone (Slug.ne_nil_of_mem_language (intercalate_slugWords_mem_language h))
  · exact String.toList_ofList

/-- **Slugs are of the language.** -/
theorem toList_slug_mem_language (name : String) : (slug name).toList ∈ Slug.language := by
  by_cases h : slugWords (name.toList.flatMap slugLower) = []
  · rw [slug_of_no_words h]
    have hsession : ("session" : String).toList ∈ Slug.word :=
      Slug.mem_word_iff.2 ⟨List.cons_ne_nil _ _, List.all_eq_true.1 rfl⟩
    exact Slug.mem_language_iff.2 ⟨[_], List.cons_ne_nil _ _, List.forall_mem_singleton.2 hsession,
      List.intercalate_singleton.symm⟩
  · rw [toList_slug h]
    exact intercalate_slugWords_mem_language h

/-- **The words of the language are their own slugs.** -/
theorem slug_of_mem_language {word : String} (h : word.toList ∈ Slug.language) :
    slug word = word := by
  have hlower : word.toList.flatMap slugLower = word.toList := by
    refine flatMap_slugLower_eq_self fun c hc => ?_
    rcases Slug.mem_of_mem_language h hc with hletter | rfl
    · exact slugLower_of_isSlugLetter hletter
    · rfl
  obtain ⟨words, hne, hwords, hjoined⟩ := Slug.mem_language_iff.1 h
  have hsame : slugWords (word.toList.flatMap slugLower) = words := by
    rw [hlower, hjoined, slugWords_intercalate hwords]
  rw [← String.toList_inj, toList_slug (hsame ▸ hne), hsame, hjoined]

theorem slug_ne_nil (name : String) : (slug name).toList ≠ [] :=
  Slug.ne_nil_of_mem_language (toList_slug_mem_language name)

/-- There is no white space in a slug. -/
theorem isBlank_of_mem_slug {name : String} (h : c ∈ (slug name).toList) : isBlank c = false := by
  rcases Slug.mem_of_mem_language (toList_slug_mem_language name) h with hletter | rfl
  · exact isBlank_of_isSlugLetter hletter
  · decide

/-- **Slugs are a normal form.**  Whatever the name, its slug is a word of
`[a-z0-9]+(-[a-z0-9]+)*`; each word of this language is its own slug, so that the slug of a slug
is itself and the slugs are the whole language.  A name whose lower case has no letter of the
language is called `session`; the slug of any other has the words of its lower case, joined by
dashes. -/
theorem slug_normal_form :
    (∀ name, (slug name).toList ∈ Slug.language) ∧
      (∀ word : String, word.toList ∈ Slug.language → slug word = word) ∧
      (∀ name, slug (slug name) = slug name) ∧
      (Set.range fun name => (slug name).toList) = Slug.language ∧
      (∀ name : String, (∀ c ∈ name.toList.flatMap slugLower, ¬ Slug.IsLetter c) →
        slug name = "session") ∧
      ∀ name : String, (∃ c ∈ name.toList.flatMap slugLower, Slug.IsLetter c) →
        (slug name).toList = ['-'].intercalate (slugWords (name.toList.flatMap slugLower)) := by
  refine ⟨toList_slug_mem_language, fun word => slug_of_mem_language,
    fun name => slug_of_mem_language (toList_slug_mem_language name), ?_,
    fun name hnone => slug_of_no_words (slugWords_eq_nil_iff.2 hnone), ?_⟩
  · ext w
    constructor
    · rintro ⟨name, rfl⟩
      exact toList_slug_mem_language name
    · intro hw
      have hfixed : slug (String.ofList w) = String.ofList w :=
        slug_of_mem_language (String.toList_ofList.symm ▸ hw)
      exact ⟨String.ofList w, (congrArg String.toList hfixed).trans String.toList_ofList⟩
  · rintro name ⟨c, hc, hletter⟩
    exact toList_slug fun hnone => slugWords_eq_nil_iff.1 hnone c hc hletter

/-- A word of the language, a name that nothing is left of, and one that two words are left of. -/
theorem slug_normal_form_of_plans :
    ("q3q4-plans".toList ∈ Slug.language ∧ slug "q3q4-plans" = "q3q4-plans") ∧
      ((∀ c ∈ " \u65e5\u672c --".toList.flatMap slugLower, ¬ Slug.IsLetter c) ∧
        slug " \u65e5\u672c --" = "session") ∧
      (∃ c ∈ "Q3/Q4 - \u212aelvin!".toList.flatMap slugLower, Slug.IsLetter c) ∧
        (slug "Q3/Q4 - \u212aelvin!").toList = "q3q4-kelvin".toList := by
  obtain ⟨-, hfixed, -, -, hnone, hsome⟩ := slug_normal_form
  have hfirst : "q3q4".toList ∈ Slug.word :=
    Slug.mem_word_iff.2 ⟨List.cons_ne_nil _ _, List.all_eq_true.1 rfl⟩
  have hsecond : "plans".toList ∈ Slug.word :=
    Slug.mem_word_iff.2 ⟨List.cons_ne_nil _ _, List.all_eq_true.1 rfl⟩
  have hplans : "q3q4-plans".toList ∈ Slug.language :=
    Slug.mem_language_iff.2 ⟨_, List.cons_ne_nil _ _,
      List.forall_mem_cons.2 ⟨hfirst, List.forall_mem_singleton.2 hsecond⟩, rfl⟩
  have hdropped : ∀ c ∈ " \u65e5\u672c --".toList.flatMap slugLower, ¬ Slug.IsLetter c :=
    fun c hc => mt Slug.isSlugLetter_iff.2 (List.any_eq_false.1 rfl c hc)
  have hletter : ∃ c ∈ "Q3/Q4 - \u212aelvin!".toList.flatMap slugLower, Slug.IsLetter c :=
    ⟨'q', List.mem_cons_self, Slug.isSlugLetter_iff.1 rfl⟩
  exact ⟨⟨hplans, hfixed _ hplans⟩, ⟨hdropped, hnone _ hdropped⟩, hletter, hsome _ hletter⟩

end Parley.Text
