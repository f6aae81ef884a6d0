import Parley.Decimal.Literal
import Parley.Decimal.Shortest
import Parley.Json.Printer

/-!
# Whole numbers and their digits

A whole number is written by its decimal digits without leading zeros (`Decimal.natText`), and
read by gathering them again.  What is read back is the number (`digitsValue_digitsOf`), and an
integer that fits 64 bits is read as an integer (`value?_ofInt`).
-/

namespace Parley.Decimal

/-! ## Digits -/

theorem digit?_of_isDigit {c : Char} (h : c.isDigit) : digit? c = some (c.toNat - 48) := by
  rw [Char.isDigit, Bool.and_eq_true, decide_eq_true_eq, decide_eq_true_eq] at h
  rw [digit?, if_pos]
  rw [Bool.and_eq_true, decide_eq_true_eq, decide_eq_true_eq]
  exact h

/-- The digits of a number. -/
def digitsOf (n : Nat) : List Nat := (natText n).filterMap digit?

theorem isDigit_of_mem_natText {n : Nat} {c : Char} (h : c ∈ natText n) : c.isDigit :=
  Nat.isDigit_of_mem_toDigits (by decide) (by decide) h

theorem natText_ne_nil (n : Nat) : natText n ≠ [] := Nat.toDigits_ne_nil

theorem digitsValue_filterMap {ds : List Char} (h : ∀ c ∈ ds, c.isDigit) (init : Nat) :
    (ds.filterMap digit?).foldl (fun n d => n * 10 + d) init = Nat.ofDigitChars 10 ds init := by
  induction ds generalizing init with
  | nil => rfl
  | cons c ds ih =>
    have hc := digit?_of_isDigit (h c List.mem_cons_self)
    rw [List.filterMap_cons_some hc, List.foldl_cons, Nat.ofDigitChars_cons,
      ih fun d hd => h d (List.mem_cons_of_mem _ hd), Nat.mul_comm 10 init]
    rfl

/-- **A number is the value of its digits.** -/
theorem digitsValue_digitsOf (n : Nat) : digitsValue (digitsOf n) = n := by
  rw [digitsValue, digitsOf, digitsValue_filterMap fun c hc => isDigit_of_mem_natText hc]
  exact Nat.ofDigitChars_ten_toDigits

/-- Only zero starts with the digit zero. -/
theorem head?_natText {n : Nat} (h : 0 < n) :
    ∃ c rest, natText n = c :: rest ∧ c ≠ '0' ∧ c.isDigit := by
  induction n using Nat.strongRecOn with
  | ind n ih =>
    by_cases hn : n < 10
    · have htext : natText n = [n.digitChar] := Nat.toDigits_of_lt_base hn
      have hdigit : n.digitChar ∈ natText n := by
        rw [htext]
        exact List.mem_singleton_self _
      refine ⟨n.digitChar, [], htext, ?_, isDigit_of_mem_natText hdigit⟩
      intro hzero
      have hvalue := Nat.toNat_digitChar_sub_48_of_lt_ten hn
      rw [hzero] at hvalue
      have : '0'.toNat - 48 = 0 := rfl
      omega
    · obtain ⟨c, rest, htext, hc⟩ := ih (n / 10) (by omega) (by omega)
      refine ⟨c, rest ++ [(n % 10).digitChar], ?_, hc⟩
      rw [natText, Nat.toDigits_of_base_le (by decide) (by omega)]
      rw [natText] at htext
      rw [htext]
      rfl

/-- A run of digits ends where the digits end. -/
theorem digitRun_append {ds rest : List Char} (h : ∀ c ∈ ds, c.isDigit)
    (hrest : ∀ c ∈ rest.head?, digit? c = none) :
    digitRun (ds ++ rest) = (ds.filterMap digit?, rest) := by
  induction ds with
  | nil =>
    cases rest with
    | nil => rfl
    | cons c rest =>
      rw [List.nil_append, digitRun, hrest c rfl]
      rfl
  | cons c ds ih =>
    have hc := digit?_of_isDigit (h c List.mem_cons_self)
    rw [List.cons_append, digitRun, hc, ih fun d hd => h d (List.mem_cons_of_mem _ hd),
      List.filterMap_cons_some hc]

/-! ## Integers -/

/-- The literal that an integer is written as. -/
def Literal.ofInt (i : Int) : Literal := ⟨decide (i < 0), digitsOf i.natAbs, none, none⟩

theorem someDigits_natText (n : Nat) : someDigits (natText n) = some (digitsOf n, []) := by
  have hrun : digitRun (natText n ++ []) = ((natText n).filterMap digit?, []) :=
    digitRun_append (fun c => isDigit_of_mem_natText) nofun
  rw [List.append_nil] at hrun
  obtain ⟨c, rest, htext⟩ := List.exists_cons_of_ne_nil (natText_ne_nil n)
  have hc : c.isDigit := isDigit_of_mem_natText (n := n) (htext ▸ List.mem_cons_self)
  rw [someDigits, hrun, htext, List.filterMap_cons_some (digit?_of_isDigit hc)]
  rw [digitsOf, htext, List.filterMap_cons_some (digit?_of_isDigit hc)]

/-- No zero leads the digits of a number. -/
theorem digitsOf_no_leading (n : Nat) :
    ¬((digitsOf n).head? = some 0 ∧ (digitsOf n).length ≠ 1) := by
  rintro ⟨hzero, hlength⟩
  rcases Nat.eq_zero_or_pos n with rfl | hn
  · exact hlength rfl
  · obtain ⟨c, rest, htext, hc, hdigit⟩ := head?_natText hn
    rw [digitsOf, htext, List.filterMap_cons_some (digit?_of_isDigit hdigit), List.head?_cons,
      Option.some_inj] at hzero
    rw [Char.isDigit, Bool.and_eq_true, decide_eq_true_eq, decide_eq_true_eq] at hdigit
    have hle : 48 ≤ c.toNat := hdigit.1
    have htoNat : c.toNat = 48 := by omega
    exact hc (Char.toNat_inj.1 htoNat)

/-- **An integer's text is the integer's literal.** -/
theorem ofChars?_intText (i : Int) :
    Literal.ofChars? (Json.intText i) = some (.ofInt i) := by
  have hdigits := someDigits_natText i.natAbs
  rw [Json.intText]
  split
  case isTrue hneg =>
    simp only [Literal.ofChars?, hdigits, Option.bind_eq_bind, Option.bind_some,
      digitsOf_no_leading, if_false, List.isEmpty_nil, if_true]
    rw [Literal.ofInt, decide_eq_true hneg]
  case isFalse hneg =>
    obtain ⟨c, rest, htext⟩ := List.exists_cons_of_ne_nil (natText_ne_nil i.natAbs)
    have hc : c.isDigit := isDigit_of_mem_natText (htext ▸ List.mem_cons_self)
    have hminus : c ≠ '-' := by
      rintro rfl
      cases hc
    rw [htext] at hdigits ⊢
    unfold Literal.ofChars?
    split
    rename_i negative s hsign
    split at hsign
    · rename_i heq
      exact absurd (List.cons.inj heq).1 hminus
    · cases hsign
      simp only [hdigits, Option.bind_eq_bind, Option.bind_some, digitsOf_no_leading, if_false,
        List.isEmpty_nil, if_true]
      rw [Literal.ofInt, decide_eq_false hneg]

/-- **An integer that fits 64 bits, signed or unsigned, is read as itself.** -/
theorem value?_ofInt {i : Int} (hmin : -(maxNegated : Int) ≤ i) (hmax : i ≤ maxWord) :
    (Literal.ofInt i).value? = some (.int i) := by
  have hvalue : digitsValue (Literal.ofInt i).whole = i.natAbs := digitsValue_digitsOf _
  rw [Literal.value?, hvalue]
  by_cases hneg : i < 0
  · have hnegative : (Literal.ofInt i).negative = true := decide_eq_true hneg
    rw [if_neg, if_pos]
    · rw [show -(i.natAbs : Int) = i by omega]
    · refine ⟨rfl, rfl, hnegative, ?_, ?_⟩ <;> omega
    · rintro ⟨-, -, hsign, -⟩
      rw [hnegative] at hsign
      cases hsign
  · have hnegative : (Literal.ofInt i).negative = false := decide_eq_false hneg
    rw [if_pos]
    · rw [show (i.natAbs : Int) = i by omega]
    · refine ⟨rfl, rfl, ?_, ?_⟩
      · rw [hnegative]
        rfl
      · omega

end Parley.Decimal
