import Parley.Time.Timestamp

/-!
# The order of instants

Instants are ordered by their seconds and then by their nanoseconds.  The order is total, and
`Timestamp.max` is the later of two instants in it.
-/

namespace Parley.Timestamp

variable {a b c : Timestamp}

theorem le_iff : a.le b ↔ a.seconds < b.seconds ∨ a.seconds = b.seconds ∧ a.nanos ≤ b.nanos := by
  rw [le, Bool.or_eq_true, Bool.and_eq_true, decide_eq_true_eq, beq_iff_eq, decide_eq_true_eq]

theorem le_refl (a : Timestamp) : a.le a := by
  rw [le_iff]
  omega

theorem le_trans (hab : a.le b) (hbc : b.le c) : a.le c := by
  rw [le_iff] at hab hbc ⊢
  omega

theorem le_antisymm (hab : a.le b) (hba : b.le a) : a = b := by
  rw [le_iff] at hab hba
  obtain ⟨seconds, nanos⟩ := a
  obtain ⟨seconds', nanos'⟩ := b
  dsimp only at hab hba
  rw [mk.injEq]
  omega

theorem le_total (a b : Timestamp) : a.le b ∨ b.le a := by
  rw [le_iff, le_iff]
  omega

/-- The later of two instants is the first, if that is not before the second. -/
theorem max_eq_left (h : b.le a) : a.max b = a := by
  rw [max]
  split
  · rename_i hab
    exact le_antisymm h hab
  · rfl

theorem le_max_left (a b : Timestamp) : a.le (a.max b) := by
  rw [max]
  split
  · rename_i hab
    exact hab
  · exact le_refl a

theorem le_max_right (a b : Timestamp) : b.le (a.max b) := by
  rw [max]
  split
  · exact le_refl b
  · rename_i hab
    exact (le_total a b).resolve_left hab

theorem max_self (a : Timestamp) : a.max a = a := max_eq_left (le_refl a)

end Parley.Timestamp
