/-!
# Finite tables

A table holds at most one value per key and is kept as a list of entries, in the order in which
their keys were first set.  What a table holds is read through `get?`; the laws below say what
setting and erasing do to that view, and nothing else about the list is used.
-/

namespace Parley

/-- A finite map from `κ` to `ν`. -/
structure Table (κ ν : Type) where
  entries : List (κ × ν)

namespace Table

variable {κ ν : Type} [DecidableEq κ]

instance : Inhabited (Table κ ν) := ⟨⟨[]⟩⟩

/-- The table without entries. -/
def empty : Table κ ν := ⟨[]⟩

/-- The value of the first entry with a key. -/
def find (k : κ) : List (κ × ν) → Option ν
  | [] => none
  | (l, v) :: rest => if l = k then some v else find k rest

/-- Entries with the value of a key replaced, or added at the end. -/
def put (k : κ) (v : ν) : List (κ × ν) → List (κ × ν)
  | [] => [(k, v)]
  | (l, w) :: rest => if l = k then (k, v) :: rest else (l, w) :: put k v rest

/-- Entries without those of a key. -/
def drop (k : κ) (entries : List (κ × ν)) : List (κ × ν) :=
  entries.filter fun e => e.1 ≠ k

/-- The value of a key. -/
def get? (t : Table κ ν) (k : κ) : Option ν := find k t.entries

/-- Whether a key has a value. -/
def contains (t : Table κ ν) (k : κ) : Bool := (t.get? k).isSome

/-- The table with the value of one key set. -/
def set (t : Table κ ν) (k : κ) (v : ν) : Table κ ν := ⟨put k v t.entries⟩

/-- The table without a key. -/
def erase (t : Table κ ν) (k : κ) : Table κ ν := ⟨drop k t.entries⟩

/-- The keys, in the order in which they were first set. -/
def keys (t : Table κ ν) : List κ := t.entries.map (·.1)

/-- How many keys there are. -/
def size (t : Table κ ν) : Nat := t.entries.length

/-! ## The view -/

@[simp] theorem get?_empty (k : κ) : (empty : Table κ ν).get? k = none := rfl

theorem get?_set (t : Table κ ν) (k l : κ) (v : ν) :
    (t.set k v).get? l = if l = k then some v else t.get? l := by
  obtain ⟨entries⟩ := t
  simp only [get?, set]
  induction entries with
  | nil =>
    by_cases h : l = k
    · simp [put, find, h]
    · simp [put, find, h, Ne.symm h]
  | cons e rest ih =>
    by_cases h : e.1 = k <;> by_cases h' : l = k <;> by_cases h'' : e.1 = l <;>
      simp_all [put, find]

theorem get?_erase (t : Table κ ν) (k l : κ) :
    (t.erase k).get? l = if l = k then none else t.get? l := by
  obtain ⟨entries⟩ := t
  simp only [get?, erase, drop]
  induction entries with
  | nil => simp [find]
  | cons e rest ih =>
    by_cases h : e.1 = k <;> by_cases h' : l = k <;> by_cases h'' : e.1 = l <;>
      simp_all [find]

@[simp] theorem get?_set_self (t : Table κ ν) (k : κ) (v : ν) : (t.set k v).get? k = some v := by
  simp [get?_set]

@[simp] theorem get?_erase_self (t : Table κ ν) (k : κ) : (t.erase k).get? k = none := by
  simp [get?_erase]

end Table

end Parley
