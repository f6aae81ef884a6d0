import Parley.Proofs.Time.Rfc3339

/-!
# The characters of stamps

The stamps in generated keys and file names hold digits, dashes, underscores and, in years far off,
signs (`mem_keyStamp`, `mem_fileStamp`).  So they hold no white space and no `/`.
-/

namespace Parley.Timestamp

variable {c : Char} {t : Timestamp} {between : List Char}

/-- A digit, a sign or a mark between the parts of a stamp. -/
def IsStampChar (c : Char) : Prop := c.isDigit ∨ c = '-' ∨ c = '+' ∨ c = '_'

theorem isStampChar_of_mem_padded {width n : Nat} (h : c ∈ padded width n) : IsStampChar c :=
  .inl (isDigit_of_mem_padded h)

theorem isStampChar_of_mem_yearText {year : Int} (h : c ∈ yearText year) : IsStampChar c := by
  rw [yearText] at h
  split at h
  · exact isStampChar_of_mem_padded h
  · rcases List.mem_cons.1 h with rfl | hdigit
    · split
      · exact .inr (.inl rfl)
      · exact .inr (.inr (.inl rfl))
    · exact isStampChar_of_mem_padded hdigit

theorem isStampChar_of_mem_dateText (h : c ∈ t.dateText []) : IsStampChar c := by
  simp only [dateText, List.append_nil, List.mem_append] at h
  rcases h with (hyear | hmonth) | hday
  · exact isStampChar_of_mem_yearText hyear
  · exact isStampChar_of_mem_padded hmonth
  · exact isStampChar_of_mem_padded hday

theorem isStampChar_of_mem_timeText (h : c ∈ t.timeText []) : IsStampChar c := by
  simp only [timeText, List.append_nil, List.mem_append] at h
  rcases h with (hhour | hminute) | hsecond
  · exact isStampChar_of_mem_padded hhour
  · exact isStampChar_of_mem_padded hminute
  · exact isStampChar_of_mem_padded hsecond

theorem mem_keyStamp (h : c ∈ t.keyStamp.toList) : IsStampChar c := by
  rw [keyStamp, String.toList_ofList, List.mem_append, List.mem_cons] at h
  rcases h with hdate | rfl | htime
  · exact isStampChar_of_mem_dateText hdate
  · exact .inr (.inl rfl)
  · exact isStampChar_of_mem_timeText htime

theorem keyStamp_ne_nil (t : Timestamp) : t.keyStamp.toList ≠ [] := by
  rw [keyStamp, String.toList_ofList]
  exact List.append_ne_nil_of_right_ne_nil _ (List.cons_ne_nil _ _)

/-- No character of a stamp is white space. -/
theorem IsStampChar.isBlank (h : IsStampChar c) : Text.isBlank c = false := by
  rcases h with hdigit | rfl | rfl | rfl
  · exact Text.isBlank_of_isDigit hdigit
  · decide
  · decide
  · decide

end Parley.Timestamp
