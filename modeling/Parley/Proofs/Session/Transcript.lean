import Parley.Proofs.Session.Effects
import Parley.Proofs.Time.Order

/-!
# Transcripts under requests

What a store has under a key is read by `Store.said`; a key without a session reads as a session
without turns, so that making a session is no change.  Three requests can change a transcript:
adding a turn, emptying it, and removing the session.  The others are *quiet*
(`said_answer_of_isQuiet`).

In memory, adding a turn can only fail for want of a session (`append_inMemory`).
-/

namespace Parley

/-- The requests that change no transcript. -/
def StoreRequest.IsQuiet : StoreRequest → Prop
  | .append .. | .clear _ | .delete .. => False
  | _ => True

/-! ## One more turn -/

namespace Session

/-- A turn is added as it is, but for its time, which may become later. -/
theorem exists_stamp (x : Session) (t : Turn) (now : Timestamp) :
    ∃ stamp, (x.extend t now).1 = { t with timestamp := stamp } ∧ t.timestamp.le stamp := by
  unfold extend
  cases x.transcript.getLast? with
  | none => exact ⟨t.timestamp, rfl, Timestamp.le_refl _⟩
  | some last => exact ⟨_, rfl, Timestamp.le_max_left _ _⟩

theorem transcript_extend (x : Session) (t : Turn) (now : Timestamp) :
    (x.extend t now).2.transcript = x.transcript ++ [(x.extend t now).1] := rfl

/-- The time of a turn is not before those of the turns that it is added to. -/
theorem le_extend {x : Session}
    (hordered : x.transcript.Pairwise fun t u => t.timestamp.le u.timestamp)
    {u : Turn} (hu : u ∈ x.transcript) (t : Turn) (now : Timestamp) :
    u.timestamp.le (x.extend t now).1.timestamp := by
  unfold extend
  cases hlast : x.transcript.getLast? with
  | none =>
    rw [List.getLast?_eq_none_iff.1 hlast] at hu
    cases hu
  | some last =>
    have hle := Timestamp.le_max_right t.timestamp last.timestamp
    obtain ⟨init, hinit⟩ := List.getLast?_eq_some_iff.1 hlast
    rw [hinit] at hu hordered
    rcases List.mem_append.1 hu with hold | hnew
    · have hbefore := (List.pairwise_append.1 hordered).2.2 u hold last List.mem_cons_self
      exact Timestamp.le_trans hbefore hle
    · rw [List.mem_singleton.1 hnew]
      exact hle

end Session

/-! ## Turns under a key -/

namespace Store

/-- The turns under a key. -/
def said (s : Store) (key : SessionKey) : List Turn :=
  (s.sessions.get? key).elim [] Session.transcript

theorem said_congr {s s' : Store} (h : s'.sessions = s.sessions) : s'.said = s.said := by
  funext key
  rw [said, said, h]

/-- What is got is what was said. -/
theorem transcript_of_get? {s : Store} {key : SessionKey} {session : Session} {active : Bool}
    (h : s.get? key = some (session, active)) : session.transcript = s.said key := by
  obtain ⟨found, hfound, hpair⟩ := Option.map_eq_some_iff.1 h
  cases hpair
  rw [said, hfound]
  rfl

/-! ## Quiet requests -/

variable {s : Store} {now : Timestamp} {r : StoreRequest} {sessions : Table SessionKey Session}
  {overrides : Table Identity SessionKey}

/-- A session without turns, put where there was none, is no change. -/
theorem said_set_vacant {key : SessionKey} {x : Session} (hvacant : ¬ s.sessions.contains key)
    (hx : x.transcript = []) (disk : Option Directory) :
    said ⟨s.sessions.set key x, overrides, disk⟩ = s.said := by
  funext k
  rw [said, said, Table.get?_set]
  split
  · rename_i hk
    rw [Table.contains, Bool.not_eq_true, Option.isSome_eq_false_iff,
      Option.isNone_iff_eq_none] at hvacant
    rw [hk, hvacant]
    exact hx
  · rfl

theorem said_of_moves (h : r.IsQuiet) (hmoves : Moves now s r sessions overrides)
    (disk : Option Directory) : said ⟨sessions, overrides, disk⟩ = s.said := by
  cases hmoves with
  | stay | switch | reset => exact said_congr rfl
  | create _ hvacant | resolve hvacant => exact said_set_vacant hvacant rfl disk
  | append | clear | delete => exact h.elim

/-- **A quiet request leaves every transcript as it is.** -/
theorem said_answer_of_isQuiet (s : Store) (now : Timestamp) {r : StoreRequest} (h : r.IsQuiet) :
    (answer now r s).2.said = s.said :=
  said_of_moves h (moves_answer now r s) _

/-! ## In memory -/

/-- In memory, a turn is added to the session under its key, and to no other, or there is no
session under that key. -/
theorem append_inMemory {s : Store} (h : s.disk = none) (key : SessionKey) (t : Turn)
    (now : Timestamp) :
    (∃ stamp, (s.append key t now).1 = .ok () ∧ (s.append key t now).2.said key =
        s.said key ++ [{ t with timestamp := stamp }] ∧
        ∀ k ≠ key, (s.append key t now).2.said k = s.said k) ∨
      ∃ e, s.append key t now = (.error e, s) ∧ s.said key = [] := by
  rw [append]
  cases hsession : s.sessions.get? key with
  | none =>
    refine .inr ⟨_, rfl, ?_⟩
    rw [said, hsession]
    rfl
  | some session =>
    obtain ⟨stamp, hextend, -⟩ := session.exists_stamp t now
    dsimp only
    rw [h]
    refine .inl ⟨stamp, rfl, ?_, fun k hk => ?_⟩
    · rw [said, said, Table.get?_set_self, hsession]
      show (session.extend t now).2.transcript = _
      rw [session.transcript_extend, hextend]
      rfl
    · rw [said, said, Table.get?_set, if_neg hk]

/-- **A store in memory stays in memory.** -/
theorem disk_answer {s : Store} (h : s.disk = none) (now : Timestamp) (r : StoreRequest) :
    (answer now r s).2.disk = none := by
  have halike := alike_answer now r s
  rw [h] at halike
  generalize (answer now r s).2.disk = disk at halike
  cases halike
  rfl

end Store

end Parley
