import Mathlib.Algebra.Group.Nat.Defs
import Parley.Proofs.Decimal.Digits
import Parley.Proofs.Text.Blank
import Parley.Proofs.Time.Calendar
import Parley.Time.Timestamp

/-!
# Written instants are read back

An instant in the range of years that has no more nanoseconds than its second lasts
(`Timestamp.Valid`) is written so that its text names that instant again (`ofText?_rfc3339`).
Only such instants are ever read (`valid_of_ofText?`).

The text is read part by part.  Every part is a run of digits, after zeros that fill it up to its
width, and ends at a character that is no digit (`number?_padded`).
-/

namespace Parley.Timestamp

open Time

/-- An instant in the range of years.  Its nanoseconds are less than a second, or less than two
in the last second of a minute, which may be prolonged. -/
structure Valid (t : Timestamp) : Prop where
  nanos : t.nanos < 1000000000 ∨ t.nanos < 2000000000 ∧ t.seconds.fmod 60 = 59
  year : inRange t.date.year

theorem Valid.max {a b : Timestamp} (ha : a.Valid) (hb : b.Valid) : (a.max b).Valid := by
  rw [Timestamp.max]
  split
  · exact hb
  · exact ha

/-! ## Numbers -/

variable {n width most : Nat} {rest : List Char} {c : Char}

theorem isDigit_of_mem_padded (h : c ∈ padded width n) : c.isDigit := by
  rcases List.mem_append.1 h with hzero | hdigit
  · rw [List.eq_of_mem_replicate hzero]
    rfl
  · exact Decimal.isDigit_of_mem_natText hdigit

theorem padded_ne_nil (width n : Nat) : padded width n ≠ [] := by
  rw [padded]
  exact List.append_ne_nil_of_right_ne_nil _ (Decimal.natText_ne_nil n)

/-- **Filled up with zeros, a number keeps its value.** -/
theorem digitsValue_padded (width n : Nat) :
    Decimal.digitsValue ((padded width n).filterMap Decimal.digit?) = n := by
  rw [Decimal.digitsValue, Decimal.digitsValue_filterMap fun c => isDigit_of_mem_padded, padded,
    Nat.ofDigitChars_append, Nat.ofDigitChars_replicate_zero, Nat.mul_zero]
  exact Nat.ofDigitChars_ten_toDigits

theorem length_natText_le (hwidth : 0 < width) (hn : n < 10 ^ width) :
    (Decimal.natText n).length ≤ width :=
  (Nat.length_toDigits_le_iff (by decide) hwidth).2 hn

theorem length_padded (hwidth : 0 < width) (hn : n < 10 ^ width) :
    (padded width n).length = width := by
  have hlength := length_natText_le hwidth hn
  rw [padded, List.length_append, List.length_replicate]
  omega

/-- A run of digits is taken as a number, if it is not too long. -/
theorem number?_digits {digits : List Char} (hdigits : ∀ c ∈ digits, c.isDigit)
    (hne : digits ≠ []) (hlength : digits.length ≤ most)
    (hrest : ∀ c ∈ rest.head?, Decimal.digit? c = none) :
    number? most (digits ++ rest) =
      some (Decimal.digitsValue (digits.filterMap Decimal.digit?), rest) := by
  have hsome : ∀ c ∈ digits, (Decimal.digit? c).isSome := fun c hc => by
    rw [Decimal.digit?_of_isDigit (hdigits c hc)]
    rfl
  have hstop : (rest.take (most - digits.length)).takeWhile
      (fun c => (Decimal.digit? c).isSome) = [] := by
    cases rest with
    | nil => rw [List.take_nil, List.takeWhile_nil]
    | cons c rest =>
      cases most - digits.length with
      | zero => rfl
      | succ left =>
        rw [List.take_succ_cons, List.takeWhile_cons_of_neg]
        rw [hrest c rfl]
        exact Bool.false_ne_true
  have hrun : ((digits ++ rest).take most).takeWhile (fun c => (Decimal.digit? c).isSome) =
      digits := by
    rw [List.take_append, List.take_of_length_le hlength, List.takeWhile_append_of_pos hsome, hstop,
      List.append_nil]
  rw [number?, hrun, List.drop_left]
  simp [hne]

/-- **A filled-up number is read back.** -/
theorem number?_padded (hlength : (padded width n).length ≤ most)
    (hrest : ∀ c ∈ rest.head?, Decimal.digit? c = none) :
    number? most (padded width n ++ rest) = some (n, rest) := by
  rw [number?_digits (fun c => isDigit_of_mem_padded) (padded_ne_nil width n) hlength hrest,
    digitsValue_padded]

/-- What starts with a filled-up number starts with a digit. -/
theorem isDigit_of_padded_append {s : List Char} (h : padded width n ++ rest = c :: s) :
    c.isDigit := by
  obtain ⟨d, more, htext⟩ := List.exists_cons_of_ne_nil (padded_ne_nil width n)
  rw [htext, List.cons_append] at h
  have hc : c ∈ padded width n := by
    rw [htext, (List.cons.inj h).1]
    exact List.mem_cons_self
  exact isDigit_of_mem_padded hc

theorem trimLeft_padded : Text.trimLeft (padded width n ++ rest) = padded width n ++ rest := by
  cases htext : padded width n ++ rest with
  | nil => rfl
  | cons c s =>
    exact Text.trimLeft_of_not_blank (Text.isBlank_of_isDigit (isDigit_of_padded_append htext))

theorem part?_padded (hlength : (padded width n).length ≤ most)
    (hrest : ∀ c ∈ rest.head?, Decimal.digit? c = none) :
    part? most (padded width n ++ rest) = some (n, rest) := by
  rw [part?, trimLeft_padded, number?_padded hlength hrest]

theorem after?_self (h : Text.isBlank c = false) : after? c (c :: rest) = some rest := by
  rw [after?, Text.trimLeft_of_not_blank h]
  exact if_pos rfl

/-! ## The parts of an instant -/

theorem year?_yearText {year : Int} (hrest : ∀ c ∈ rest.head?, Decimal.digit? c = none) :
    year? (yearText year ++ rest) = some (year, rest) := by
  rw [yearText]
  split
  case isTrue hplain =>
    have hlength : (padded 4 year.toNat).length ≤ 4 :=
      Nat.le_of_eq (length_padded (by decide) (by omega))
    have hvalue : (year.toNat : Int) = year := Int.toNat_of_nonneg hplain.1
    unfold year?
    rw [trimLeft_padded]
    split
    · rename_i heq
      cases isDigit_of_padded_append heq
    · rename_i heq
      cases isDigit_of_padded_append heq
    · simp only [number?_padded hlength hrest, Option.map_some, hvalue]
  case isFalse hout =>
    have hnumber : number? (padded 4 year.natAbs ++ rest).length (padded 4 year.natAbs ++ rest) =
        some (year.natAbs, rest) := by
      refine number?_padded ?_ hrest
      rw [List.length_append]
      omega
    by_cases hneg : year < 0
    · have hvalue : -(year.natAbs : Int) = year := by omega
      rw [if_pos hneg, year?, List.cons_append, Text.trimLeft_of_not_blank rfl]
      simp only [hnumber, Option.map_some, hvalue]
    · have hvalue : (year.natAbs : Int) = year := by omega
      rw [if_neg hneg, year?, List.cons_append, Text.trimLeft_of_not_blank rfl]
      simp only [hnumber, Option.map_some, hvalue]

/-- Digits after a point are a fraction of a second. -/
theorem fraction?_padded (hwidth : 0 < width) (hwidth9 : width ≤ 9) (hn : n < 10 ^ width) :
    fraction? ('.' :: padded width n ++ ['Z']) = some (n * 10 ^ (9 - width), ['Z']) := by
  have hlength := length_padded hwidth hn
  have hdigits : (padded width n ++ ['Z']).takeWhile (fun c => (Decimal.digit? c).isSome) =
      padded width n := by
    rw [List.takeWhile_append_of_pos, List.takeWhile_cons_of_neg (by decide), List.append_nil]
    intro c hc
    rw [Decimal.digit?_of_isDigit (isDigit_of_mem_padded hc)]
    rfl
  have hnumber : number? 9 (padded width n ++ ['Z']) = some (n, ['Z']) :=
    number?_padded (Nat.le_trans (Nat.le_of_eq hlength) hwidth9) fun c hc => by cases hc; rfl
  have hdrop : (padded width n ++ ['Z']).drop (padded width n).length = ['Z'] := List.drop_left
  rw [List.cons_append, fraction?, hdigits, hnumber, hdrop]
  simp only [Option.bind_eq_bind, Option.bind_some, hlength, Nat.pow_eq]

/-- The fraction is read back to the nanosecond. -/
theorem fraction?_fractionText (t : Timestamp) :
    fraction? (t.fractionText ++ ['Z']) = some (t.fraction, ['Z']) := by
  have hlt : t.fraction < 1000000000 := Nat.mod_lt _ (by decide)
  rw [fractionText]
  split_ifs with hzero hmillis hmicros
  · rw [hzero]
    rfl
  all_goals
    rw [fraction?_padded (by decide) (by decide) (by omega)]
    congr 2
    omega

/-! ## Whole instants -/

variable (t : Timestamp)

theorem secondOfDay_eq : (t.secondOfDay : Int) = t.seconds - t.seconds.fdiv 86400 * 86400 := by
  rw [secondOfDay, Int.fmod_eq_emod_of_nonneg _ (by decide),
    Int.fdiv_eq_ediv_of_nonneg _ (by decide)]
  omega

theorem secondOfDay_lt : t.secondOfDay < 86400 := by
  have h := t.secondOfDay_eq
  rw [Int.fdiv_eq_ediv_of_nonneg _ (by decide)] at h
  omega

theorem hour_lt : t.hour < 24 := by
  have := t.secondOfDay_lt
  rw [hour]
  omega

theorem minute_lt : t.minute < 60 := by
  rw [minute]
  omega

theorem second_le : t.second ≤ 60 := by
  rw [second]
  split <;> omega

theorem toList_rfc3339 : t.rfc3339.toList =
    yearText t.date.year ++ '-' :: (padded 2 t.date.month ++ '-' :: (padded 2 t.date.day ++
      'T' :: (padded 2 t.hour ++ ':' :: (padded 2 t.minute ++ ':' ::
        (padded 2 t.second ++ (t.fractionText ++ ['Z'])))))) := by
  rw [rfc3339, String.toList_ofList]
  simp only [dateText, timeText, List.append_assoc, List.cons_append, List.nil_append]

/-- A part of two digits. -/
theorem part?_two {n : Nat} (hn : n < 100) (hrest : ∀ c ∈ rest.head?, Decimal.digit? c = none) :
    part? 2 (padded 2 n ++ rest) = some (n, rest) :=
  part?_padded (Nat.le_of_eq (length_padded (by decide) hn)) hrest

theorem digit?_head_fractionText :
    ∀ c ∈ (t.fractionText ++ ['Z']).head?, Decimal.digit? c = none := by
  intro c hc
  unfold fractionText at hc
  split_ifs at hc <;> cases hc <;> rfl

/-- The parts of an instant make it up. -/
theorem parts_eq {t : Timestamp} (h : t.Valid) :
    (⟨t.date.toDays * 86400 + t.hour * 3600 + t.minute * 60 +
        (if t.second = 60 then 59 else t.second) - 0,
      if t.second = 60 then t.fraction + 1000000000 else t.fraction⟩ : Timestamp) = t := by
  have hdays : t.date.toDays = t.seconds.fdiv 86400 := Date.toDays_ofDays _
  have hofday := t.secondOfDay_eq
  have hnanos := h.nanos
  have hminutes : (t.seconds.fmod 60 = 59 → t.secondOfDay % 60 = 59) := by
    rw [Int.fdiv_eq_ediv_of_nonneg _ (by decide)] at hofday
    rw [Int.fmod_eq_emod_of_nonneg _ (by decide)]
    omega
  have hsecond : t.second = t.secondOfDay % 60 + (if 1000000000 ≤ t.nanos then 1 else 0) := rfl
  have hfraction : t.fraction = t.nanos % 1000000000 := rfl
  have hseconds : t.date.toDays * 86400 + t.hour * 3600 + t.minute * 60 +
      (if t.second = 60 then 59 else t.second) - 0 = t.seconds := by
    rw [hdays, hour, minute]
    split_ifs at hsecond ⊢ <;> omega
  have hnanoseconds :
      (if t.second = 60 then t.fraction + 1000000000 else t.fraction) = t.nanos := by
    split_ifs at hsecond ⊢ <;> omega
  rw [hseconds, hnanoseconds]

/-- A step of reading that succeeds. -/
theorem bind_of_eq {α β : Type} {o : Option α} {f : α → Option β} {a : α} {b : Option β}
    (ho : o = some a) (hf : f a = b) : (o >>= f) = b := by
  rw [ho]
  exact hf

/-- **A written instant is read back.** -/
theorem ofText?_rfc3339 {t : Timestamp} (h : t.Valid) : ofText? t.rfc3339 = some t := by
  have hvalid : t.date.isValid := Date.isValid_ofDays _
  have hmonth := Date.month_le hvalid
  have hday := Date.day_le hvalid
  have hhour := t.hour_lt
  have hminute := t.minute_lt
  have hsecond := t.second_le
  have hyearPart (more : List Char) : year? (yearText t.date.year ++ '-' :: more) =
      some (t.date.year, '-' :: more) := year?_yearText (fun c hc => by cases hc; rfl)
  have hmonthPart (more : List Char) : part? 2 (padded 2 t.date.month ++ '-' :: more) =
      some (t.date.month, '-' :: more) := part?_two (by omega) (fun c hc => by cases hc; rfl)
  have hdayPart (more : List Char) : part? 2 (padded 2 t.date.day ++ 'T' :: more) =
      some (t.date.day, 'T' :: more) := part?_two (by omega) (fun c hc => by cases hc; rfl)
  have hhourPart (more : List Char) : part? 2 (padded 2 t.hour ++ ':' :: more) =
      some (t.hour, ':' :: more) := part?_two (by omega) (fun c hc => by cases hc; rfl)
  have hminutePart (more : List Char) : part? 2 (padded 2 t.minute ++ ':' :: more) =
      some (t.minute, ':' :: more) := part?_two (by omega) (fun c hc => by cases hc; rfl)
  have hsecondPart : part? 2 (padded 2 t.second ++ (t.fractionText ++ ['Z'])) =
      some (t.second, t.fractionText ++ ['Z']) := part?_two (by omega) t.digit?_head_fractionText
  have hdash (more : List Char) : after? '-' ('-' :: more) = some more := after?_self rfl
  have hcolon (more : List Char) : after? ':' (':' :: more) = some more := after?_self rfl
  have hoffset : offset? (Text.trimLeft ['Z']) = some (0, []) := rfl
  have hend : (Text.trimLeft []).isEmpty := rfl
  rw [ofText?, toList_rfc3339]
  refine bind_of_eq (hyearPart _) (bind_of_eq (hdash _) ?_)
  refine bind_of_eq (hmonthPart _) (bind_of_eq (hdash _) ?_)
  refine bind_of_eq (hdayPart _) ?_
  dsimp only
  rw [if_pos (.inl rfl)]
  refine bind_of_eq rfl ?_
  refine bind_of_eq (hhourPart _) (bind_of_eq (hcolon _) ?_)
  refine bind_of_eq (hminutePart _) (bind_of_eq (hcolon _) ?_)
  refine bind_of_eq hsecondPart (bind_of_eq (fraction?_fractionText t) ?_)
  refine bind_of_eq hoffset ?_
  dsimp only
  rw [if_pos ⟨hend, h.year, hvalid, hhour, hminute, hsecond⟩]
  have hdate : (⟨t.date.year, t.date.month, t.date.day⟩ : Date) = t.date := rfl
  rw [hdate, parts_eq h, if_pos h.year]

/-! ## Only such instants are read -/

theorem digit?_lt {d : Nat} (h : Decimal.digit? c = some d) : d < 10 := by
  rw [Decimal.digit?] at h
  split at h
  · rename_i hc
    rw [Bool.and_eq_true, decide_eq_true_eq, decide_eq_true_eq] at hc
    have hhigh : c.toNat ≤ 57 := hc.2
    cases h
    omega
  · cases h

theorem digitsValue_lt (digits : List Nat) (h : ∀ d ∈ digits, d < 10) :
    Decimal.digitsValue digits < 10 ^ digits.length := by
  have hfold (init k : Nat) (hinit : init < 10 ^ k) :
      digits.foldl (fun n d => n * 10 + d) init < 10 ^ (k + digits.length) := by
    induction digits generalizing init k with
    | nil => exact hinit
    | cons d digits ih =>
      have hd := h d List.mem_cons_self
      have hpow : 10 ^ (k + 1) = 10 ^ k * 10 := Nat.pow_succ ..
      have hnext := ih (fun e he => h e (List.mem_cons_of_mem _ he)) (init * 10 + d) (k + 1)
        (by omega)
      rw [List.foldl_cons, List.length_cons]
      rw [Nat.add_assoc, Nat.add_comm 1] at hnext
      exact hnext
  have hall := hfold 0 0 (by decide)
  rw [Nat.zero_add] at hall
  exact hall

/-- Fewer digits than nine are a fraction that is filled up, more are cut. -/
theorem number?_nine_lt {s : List Char} (h : number? 9 s = some (n, rest)) :
    n * 10 ^ (9 - (s.takeWhile fun c => (Decimal.digit? c).isSome).length) < 1000000000 := by
  obtain ⟨digits, hdigits⟩ : ∃ digits, digits = (s.take 9).takeWhile fun c =>
    (Decimal.digit? c).isSome := ⟨_, rfl⟩
  have hlength : digits.length = min 9 (s.takeWhile fun c => (Decimal.digit? c).isSome).length := by
    rw [hdigits, ← List.take_takeWhile, List.length_take]
  rw [number?, ← hdigits] at h
  split_ifs at h
  cases h
  have hlt := digitsValue_lt (digits.filterMap Decimal.digit?) (fun d hd => by
    obtain ⟨c, -, hc⟩ := List.mem_filterMap.1 hd
    exact digit?_lt hc)
  have hfill : Decimal.digitsValue (digits.filterMap Decimal.digit?) < 10 ^ digits.length :=
    Nat.lt_of_lt_of_le hlt (Nat.pow_le_pow_right (by decide) (List.length_filterMap_le ..))
  rw [show 9 - (s.takeWhile fun c => (Decimal.digit? c).isSome).length = 9 - digits.length by omega]
  calc _ < 10 ^ digits.length * 10 ^ (9 - digits.length) :=
        Nat.mul_lt_mul_of_pos_right hfill (Nat.pow_pos (by decide))
    _ = 10 ^ 9 := by rw [← Nat.pow_add, Nat.add_sub_cancel' (by omega)]

/-- A fraction is less than a second. -/
theorem fraction?_lt {s : List Char} (h : fraction? s = some (n, rest)) : n < 1000000000 := by
  unfold fraction? at h
  split at h
  · simp only [Option.bind_eq_bind, Option.bind_eq_some_iff] at h
    obtain ⟨⟨m, more⟩, hnumber, hvalue⟩ := h
    cases hvalue
    exact number?_nine_lt hnumber
  · cases h
    decide

theorem signed_minutes (sign : Int) (hours minutes : Nat) :
    sign * ((hours * 3600 + minutes * 60 : Nat) : Int) % 60 = 0 := by
  have hminutes : ((hours * 3600 + minutes * 60 : Nat) : Int) =
      ((hours * 60 + minutes : Nat) : Int) * 60 := by
    omega
  rw [hminutes, ← Int.mul_assoc]
  exact Int.mul_emod_left _ _

/-- Offsets are whole minutes. -/
theorem offset?_minutes {s : List Char} {offset : Int} (h : offset? s = some (offset, rest)) :
    offset % 60 = 0 := by
  unfold offset? at h
  split at h
  case h_1 => cases h
  case h_2 c rest' =>
    by_cases hzulu : c = 'Z' ∨ c = 'z'
    · rw [if_pos hzulu] at h
      cases h
      rfl
    rw [if_neg hzulu] at h
    by_cases hname : ((c :: rest').take 3).map Char.toUpper = ['U', 'T', 'C']
    · rw [if_pos hname] at h
      cases h
      rfl
    rw [if_neg hname] at h
    simp only [Option.bind_eq_bind] at h
    by_cases hplus : c = '+'
    · rw [if_pos hplus] at h
      simp only [Option.bind_some, Option.bind_eq_some_iff, Option.ite_none_right_eq_some] at h
      obtain ⟨⟨hours, _⟩, -, ⟨minutes, _⟩, -, -, hvalue⟩ := h
      cases hvalue
      exact signed_minutes 1 hours minutes
    rw [if_neg hplus] at h
    by_cases hminus : c = '-' ∨ c = '\u2212'
    · rw [if_pos hminus] at h
      simp only [Option.bind_some, Option.bind_eq_some_iff, Option.ite_none_right_eq_some] at h
      obtain ⟨⟨hours, _⟩, -, ⟨minutes, _⟩, -, -, hvalue⟩ := h
      cases hvalue
      exact signed_minutes (-1) hours minutes
    · rw [if_neg hminus] at h
      cases h

theorem exists_of_bind {α β : Type} {o : Option α} {f : α → Option β} {b : β}
    (h : (o >>= f) = some b) : ∃ a, o = some a ∧ f a = some b :=
  Option.bind_eq_some_iff.1 h

/-- **Every instant that is read is valid.** -/
theorem valid_of_ofText? {text : String} {t : Timestamp} (h : ofText? text = some t) : t.Valid := by
  rw [ofText?] at h
  obtain ⟨⟨year, _⟩, -, h⟩ := exists_of_bind h
  obtain ⟨_, -, h⟩ := exists_of_bind h
  obtain ⟨⟨month, _⟩, -, h⟩ := exists_of_bind h
  obtain ⟨_, -, h⟩ := exists_of_bind h
  obtain ⟨⟨day, _⟩, -, h⟩ := exists_of_bind h
  dsimp only at h
  split at h
  · split_ifs at h
    · obtain ⟨_, -, h⟩ := exists_of_bind h
      obtain ⟨⟨hour, _⟩, -, h⟩ := exists_of_bind h
      obtain ⟨_, -, h⟩ := exists_of_bind h
      obtain ⟨⟨minute, _⟩, -, h⟩ := exists_of_bind h
      obtain ⟨_, -, h⟩ := exists_of_bind h
      obtain ⟨⟨second, _⟩, -, h⟩ := exists_of_bind h
      obtain ⟨⟨nanos, _⟩, hnanos, h⟩ := exists_of_bind h
      obtain ⟨⟨offset, _⟩, hoffset, h⟩ := exists_of_bind h
      dsimp only at h
      have hnanoslt := fraction?_lt hnanos
      have hminutes := offset?_minutes hoffset
      rw [Option.ite_none_right_eq_some] at h
      obtain ⟨-, h⟩ := h
      rw [Option.ite_none_right_eq_some] at h
      obtain ⟨hrange, h⟩ := h
      cases h
      refine ⟨?_, hrange⟩
      rw [Int.fmod_eq_emod_of_nonneg _ (by decide)]
      dsimp only
      split_ifs <;> omega
    · cases h
  · cases h

end Parley.Timestamp
