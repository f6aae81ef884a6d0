import Parley.Text.Blank

/-!
# Paths

Paths are texts with `/` between their parts.  Only what the program does with them is here:
joining, and taking the last part.
-/

namespace Parley.Path

/-- `base` with `rest` below it: one `/` between the two, and an absolute `rest` stands alone. -/
def join (base rest : String) : String :=
  if rest.startsWith "/" then rest
  else if base.isEmpty || base.endsWith "/" then base ++ rest
  else base ++ "/" ++ rest

/-- The parts of a path, latest first; empty parts and `.` stand for nothing. -/
def parts (path : String) : List String :=
  let step (done : List (List Char)) (c : Char) : List (List Char) :=
    if c = '/' then [] :: done
    else
      match done with
      | part :: rest => (c :: part) :: rest
      | [] => [[c]]
  ((path.toList.foldl step [[]]).map fun part => String.ofList part.reverse).filter
    fun part => part ≠ "" && part ≠ "."

/-- The last part, unless it is `..` or there is none. -/
def lastPart? (path : String) : Option String :=
  match parts path with
  | part :: _ => if part = ".." then none else some part
  | [] => none

end Parley.Path
