import Parley.Identity
import Parley.Table

/-!
# One run at a time

Runs of one identity wait for each other.  Each identity that a run is active for has a lock in a
table.  A run fetches the lock, which keeps a handle on it, takes it, frees it, drops the handle,
and at last sweeps the table: an entry goes when no run has a handle on its lock.

These are separate steps, since between any two of them other runs may take theirs.
-/

namespace Parley.Agent

/-- The locks, and who has them. -/
structure RunLocks where
  /-- The lock of each identity. -/
  entries : Table Identity Nat := .empty
  /-- How many runs have a handle on a lock. -/
  handles : Table Nat Nat := .empty
  /-- The locks that are taken. -/
  held : List Nat := []
  /-- The lock to be made next. -/
  next : Nat := 0

namespace RunLocks

/-- The number of handles on a lock. -/
def count (l : RunLocks) (lock : Nat) : Nat := (l.handles.get? lock).getD 0

/-- Fetch the lock of an identity, made for the purpose if there is none. -/
def fetch (l : RunLocks) (i : Identity) : Nat × RunLocks :=
  match l.entries.get? i with
  | some lock => (lock, { l with handles := l.handles.set lock (l.count lock + 1) })
  | none =>
    (l.next, { l with
      entries := l.entries.set i l.next
      handles := l.handles.set l.next 1
      next := l.next + 1 })

/-- Take a lock, unless it is taken. -/
def take? (l : RunLocks) (lock : Nat) : Option RunLocks :=
  if l.held.contains lock then none else some { l with held := lock :: l.held }

/-- Free a lock. -/
def free (l : RunLocks) (lock : Nat) : RunLocks := { l with held := l.held.erase lock }

/-- Drop a handle on a lock. -/
def drop (l : RunLocks) (lock : Nat) : RunLocks :=
  { l with handles := l.handles.set lock (l.count lock - 1) }

/-- Remove the entry of an identity if no run has a handle on its lock. -/
def sweep (l : RunLocks) (i : Identity) : RunLocks :=
  match l.entries.get? i with
  | some lock => if l.count lock = 0 then { l with entries := l.entries.erase i } else l
  | none => l

end RunLocks

end Parley.Agent
