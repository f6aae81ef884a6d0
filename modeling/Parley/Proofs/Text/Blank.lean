import Mathlib.Data.List.Basic
import Mathlib.Data.List.TakeWhile
import Parley.Text.Blank

/-!
# White space at the ends

Trimming takes white space from both ends and nothing else.  What is trimmed does not end in white
space (`not_endsBlank_trim`), a text that neither begins nor ends so stays as it is
(`trim_eq_self`), and nothing is left of white space only (`trim_of_all`).
-/

namespace Parley.Text

variable {c : Char} {s t rest : List Char}

/-! ## Characters -/

/-- The printable characters of ASCII are no white space. -/
theorem isBlank_of_printable (hlow : 32 < c.toNat) (hhigh : c.toNat < 127) : isBlank c = false := by
  simp only [isBlank, Bool.or_eq_false_iff, Bool.and_eq_false_iff, decide_eq_false_iff_not,
    beq_eq_false_iff_ne]
  omega

theorem isBlank_of_isDigit (h : c.isDigit) : isBlank c = false := by
  rw [Char.isDigit, Bool.and_eq_true, decide_eq_true_eq, decide_eq_true_eq] at h
  have hlow : 48 ≤ c.toNat := h.1
  have hhigh : c.toNat ≤ 57 := h.2
  exact isBlank_of_printable (by omega) (by omega)

/-! ## Ends -/

/-- The text ends in white space. -/
def EndsBlank (s : List Char) : Prop := ∃ c ∈ s.getLast?, isBlank c

theorem endsBlank_append (ht : t ≠ []) : EndsBlank (s ++ t) ↔ EndsBlank t := by
  rw [EndsBlank, EndsBlank, List.getLast?_append_of_ne_nil _ ht]

/-- A text without white space in it does not end in any. -/
theorem not_endsBlank_of_forall (h : ∀ c ∈ s, isBlank c = false) : ¬ EndsBlank s := by
  rintro ⟨c, hc, hblank⟩
  rw [h c (List.mem_of_getLast? hc)] at hblank
  cases hblank

/-! ## Trimming -/

theorem trimLeft_of_not_blank (h : isBlank c = false) : trimLeft (c :: rest) = c :: rest := by
  rw [trimLeft, List.dropWhile_cons_of_neg]
  rw [h]
  exact Bool.false_ne_true

theorem trimLeft_eq_self (h : ∀ c ∈ s.head?, isBlank c = false) : trimLeft s = s := by
  cases s with
  | nil => rfl
  | cons c rest => exact trimLeft_of_not_blank (h c rfl)

theorem not_endsBlank_trimRight (s : List Char) : ¬ EndsBlank (trimRight s) := by
  rintro ⟨c, hc, hblank⟩
  rw [trimRight, List.getLast?_reverse] at hc
  have hhead := List.head?_dropWhile_not isBlank s.reverse
  rw [hc] at hhead
  dsimp only at hhead
  rw [hhead] at hblank
  cases hblank

/-- **What is trimmed does not end in white space.** -/
theorem not_endsBlank_trim (s : List Char) : ¬ EndsBlank (trim s) :=
  not_endsBlank_trimRight (trimLeft s)

/-- What is taken from the end is white space. -/
theorem exists_trimRight_append (s : List Char) :
    ∃ blank, s = trimRight s ++ blank ∧ blank.all isBlank := by
  have hsplit := List.takeWhile_append_dropWhile (p := isBlank) (l := s.reverse)
  refine ⟨(s.reverse.takeWhile isBlank).reverse, ?_, ?_⟩
  · rw [trimRight, ← List.reverse_append, hsplit, List.reverse_reverse]
  · rw [List.all_reverse, List.all_eq_true]
    exact fun c hc => List.mem_takeWhile_imp hc

/-- What is taken from both ends is white space. -/
theorem exists_append_trim_append (s : List Char) :
    ∃ before after, s = before ++ (trim s ++ after) ∧ before.all isBlank ∧ after.all isBlank := by
  obtain ⟨after, hsplit, hafter⟩ := exists_trimRight_append (trimLeft s)
  refine ⟨s.takeWhile isBlank, after, ?_, List.all_takeWhile, hafter⟩
  rw [trim, ← hsplit]
  exact List.takeWhile_append_dropWhile.symm

theorem head?_trim (s : List Char) : ∀ c ∈ (trim s).head?, isBlank c = false := by
  intro c hc
  -- what is left from the right begins as before
  obtain ⟨blank, hsplit, -⟩ := exists_trimRight_append (trimLeft s)
  have hfirst : c ∈ (trimLeft s).head? := by
    rw [hsplit]
    exact List.mem_head?_append_of_mem_head? hc
  have hhead := List.head?_dropWhile_not isBlank s
  rw [trimLeft] at hfirst
  rw [hfirst] at hhead
  exact hhead

/-- **A text with no white space at either end stays as it is.** -/
theorem trim_eq_self (hfirst : ∀ c ∈ s.head?, isBlank c = false) (hlast : ¬ EndsBlank s) :
    trim s = s := by
  have hreverse : trimLeft s.reverse = s.reverse := by
    refine trimLeft_eq_self fun c hc => Bool.eq_false_iff.2 fun hblank => hlast ⟨c, ?_, hblank⟩
    rwa [List.head?_reverse] at hc
  show (trimLeft (trimLeft s).reverse).reverse = s
  rw [trimLeft_eq_self hfirst, hreverse, List.reverse_reverse]

/-- **Trimming twice is trimming once.** -/
@[simp] theorem trim_trim (s : List Char) : trim (trim s) = trim s :=
  trim_eq_self (head?_trim s) (not_endsBlank_trim s)

theorem trim_cons_of_blank (h : isBlank c) (s : List Char) : trim (c :: s) = trim s := by
  rw [trim, trimLeft, List.dropWhile_cons_of_pos h]
  rfl

/-- White space behind a text does not count. -/
theorem trim_append_of_all {blank : List Char} (h : blank.all isBlank) (s : List Char) :
    trim (s ++ blank) = trim s := by
  have hleft : trimLeft blank = [] :=
    List.dropWhile_eq_nil_iff.2 fun c hc => List.all_eq_true.1 h c hc
  have hright (l : List Char) : trimRight (l ++ blank) = trimRight l := by
    rw [trimRight, List.reverse_append, List.dropWhile_append_of_pos]
    · rfl
    · exact fun c hc => List.all_eq_true.1 h c (List.mem_reverse.1 hc)
  rw [trim, trimLeft, List.dropWhile_append]
  split_ifs with hempty
  · rw [trim, trimLeft, List.isEmpty_iff.1 hempty]
    exact congrArg trimRight hleft
  · exact hright _

/-- Nothing is left of white space. -/
theorem trim_of_all (h : s.all isBlank) : trim s = [] := by
  have hleft : trimLeft s = [] := List.dropWhile_eq_nil_iff.2 fun c hc => List.all_eq_true.1 h c hc
  rw [trim, hleft]
  rfl

/-- Everything else is left. -/
theorem mem_trim (h : c ∈ s) (hc : isBlank c = false) : c ∈ trim s := by
  have hkept {l : List Char} (hl : c ∈ l) : c ∈ l.dropWhile isBlank := by
    rw [← List.takeWhile_append_dropWhile (p := isBlank) (l := l), List.mem_append] at hl
    exact hl.resolve_left fun hmem =>
      Bool.false_ne_true (hc.symm.trans (List.mem_takeWhile_imp hmem))
  exact List.mem_reverse.2 (hkept (List.mem_reverse.2 (hkept h)))

end Parley.Text

namespace String

open Parley

theorem eq_of_nonempty? {s t : String} (h : s.nonempty? = some t) : s = t := by
  rw [nonempty?] at h
  split at h
  · cases h
  · exact Option.some.inj h

@[simp] theorem trimBlank_trimBlank (s : String) : s.trimBlank.trimBlank = s.trimBlank := by
  rw [trimBlank, trimBlank, toList_ofList, Text.trim_trim]

theorem trimBlank_of_isAllBlank {s : String} (h : s.isAllBlank) : s.trimBlank = "" := by
  rw [trimBlank, Text.trim_of_all h]

/-- A text that is not blank is one when it is trimmed. -/
theorem nonempty?_trimBlank {s : String} (h : s.isAllBlank = false) :
    s.trimBlank.nonempty? = some s.trimBlank := by
  obtain ⟨c, hmem, hc⟩ := List.all_eq_false.1 h
  have htrim := Text.mem_trim hmem (Bool.eq_false_iff.2 hc)
  rw [nonempty?, if_neg]
  intro hempty
  have hnil : Text.trim s.toList = [] := by
    rw [← toList_ofList (l := Text.trim s.toList)]
    exact toList_eq_nil_iff.2 (isEmpty_iff.1 hempty)
  rw [hnil] at htrim
  cases htrim

end String
