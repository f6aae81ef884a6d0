import Mathlib.Order.Bounds.Basic
import Parley.Proofs.Session.Naming

/-!
# Generated keys are fresh

A session that is created without a name gets a key of its identity's name and the instant, and a
number when that key is in use.  The search for the number has no bound of its own: it goes on as
long as it meets keys in use (`Search`).  It ends all the same, since distinct numbers make distinct
keys and there are only so many sessions: `search_vacantNumber` says that the number of tries that
`vacantKey` allows is enough, and `Search.isLeast` that the search ends at the least number that
makes a free key.

So the session is new, and nothing that was there changes (`create_generated`): no session, no
override, and no file that counts but the new session's own.
-/

namespace Parley

open SessionFile

namespace Store

variable {i : Identity} {s : Store} {base : String} {m n : Nat} {new : NewSession}
  {now : Timestamp}

/-! ## The search -/

/-- The search that begins at the number `n` ends at `m`: it goes from a number to the next as long
as the key is in use. -/
inductive Search (s : Store) (base : String) : Nat → Nat → Prop
  | free {n : Nat} (h : ¬ s.sessions.contains (numbered base n)) : Search s base n n
  | used {n m : Nat} (h : s.sessions.contains (numbered base n)) (hrest : Search s base (n + 1) m) :
    Search s base n m

/-- A search ends at the least number that makes a free key. -/
theorem Search.isLeast (h : s.Search base n m) :
    IsLeast {k | n ≤ k ∧ ¬ s.sessions.contains (numbered base k)} m := by
  induction h with
  | free hfree => exact ⟨⟨Nat.le_refl _, hfree⟩, fun k hk => hk.1⟩
  | @used n m hused _ ih =>
    obtain ⟨⟨hle, hfree⟩, hleast⟩ := ih
    refine ⟨⟨Nat.le_of_succ_le hle, hfree⟩, fun k hk => ?_⟩
    rcases Nat.eq_or_lt_of_le hk.1 with rfl | hlt
    · exact absurd hused hk.2
    · exact hleast ⟨hlt, hk.2⟩

/-- **The search ends where the bounded one stops**, unless all tries were in vain. -/
theorem search_vacantNumber {tries : Nat}
    (h : ¬ s.sessions.contains (numbered base (s.vacantNumber base n tries))) :
    s.Search base n (s.vacantNumber base n tries) := by
  induction tries generalizing n with
  | zero => exact .free h
  | succ tries ih =>
    rw [vacantNumber] at h ⊢
    split_ifs at h ⊢ with hused
    · exact .used hused (ih h)
    · exact .free hused

theorem vacantNumber_le (s : Store) (base : String) (n tries : Nat) :
    s.vacantNumber base n tries ≤ n + tries := by
  induction tries generalizing n with
  | zero => exact Nat.le_refl n
  | succ tries ih =>
    rw [vacantNumber]
    split
    · have := ih (n + 1)
      omega
    · omega

/-! ## Creating -/

/-- The directory takes the file of a session. -/
def TakesSession (s : Store) (x : Session) : Prop :=
  ∀ d, s.disk = some d → (d.writeSession x).1 = .ok ()

/-- A session is put where there is none, if the directory takes it, and of the files that count
only its own is touched. -/
theorem insertVacant_of_taken {x : Session} (hvacant : ¬ s.sessions.contains x.key)
    (hkey : x.key.text ≠ "") (htakes : s.TakesSession x) :
    ∃ disk, Option.Rel (Directory.Touches (fileName x.key)) s.disk disk ∧
      s.insertVacant x = (.ok true, { s with sessions := s.sessions.set x.key x, disk }) := by
  rw [insertVacant, if_neg hvacant]
  cases hdisk : s.disk with
  | none => exact ⟨none, .none, rfl⟩
  | some d =>
    have hwrite := htakes d hdisk
    dsimp only
    rcases hwritten : d.writeSession x with ⟨⟨e⟩ | ⟨⟩, d'⟩
    · rw [hwritten] at hwrite
      cases hwrite
    · obtain ⟨htouches, -⟩ := Directory.replace_ok (Directory.counts_fileName hkey) hwritten
      exact ⟨some d', .some htouches, rfl⟩

/-- A session that is to have no name is created under the generated key. -/
theorem create_eq_createAt (h : ∀ raw, new.key = some raw → raw.isAllBlank) :
    s.create i new now = s.createAt i (s.vacantKey i now) new.titleOf? false now := by
  have hnone : (new.key.map String.trimBlank).bind String.nonempty? = none := by
    cases hkey : new.key with
    | none => rfl
    | some raw =>
      rw [Option.map_some, Option.bind_some, String.trimBlank_of_isAllBlank (h raw hkey)]
      rfl
  rw [create, hnone]

/-- Under a key that is free a session is created, if the directory takes it. -/
theorem createAt_of_taken {key : SessionKey} {title : Option String}
    (hvacant : ¬ s.sessions.contains key) (hkey : key.text ≠ "")
    (htakes : s.TakesSession (.new key i title now)) (allowExisting : Bool) :
    ∃ disk, Option.Rel (Directory.Touches (fileName key)) s.disk disk ∧
      s.createAt i key title allowExisting now =
        (.ok ((Session.new key i title now).summary (s.overrides.get? i = some key)),
          { s with sessions := s.sessions.set key (.new key i title now), disk }) := by
  obtain ⟨disk, htouches, hinsert⟩ := insertVacant_of_taken (x := .new key i title now) hvacant hkey
    htakes
  refine ⟨disk, htouches, ?_⟩
  rw [createAt, hinsert]
  dsimp only
  rw [summaryOf_ok i key (Table.get?_set_self ..)]
  rfl

/-- **A session that is created without a name is new.**  In any store, of whatever sessions, the
search for its key ends: at the least number, from one on, that makes a key not in use, which is one
of as many as there are sessions and one more.  Unless the directory refuses the file, there is then
a session under that key without turns, which the identity owns; every other session is as it was,
and so are all overrides and all files that count, but for the new one. -/
theorem create_generated (s : Store) (i : Identity)
    (hname : ∀ raw, new.key = some raw → raw.isAllBlank)
    (htakes : s.TakesSession (.new (s.vacantKey i now) i new.titleOf? now)) :
    ∃ n, s.Search (i.name ++ ":" ++ now.keyStamp) 1 n ∧ n ≤ s.size + 1 ∧
      IsLeast {m | 1 ≤ m ∧ ¬ s.sessions.contains (numbered (i.name ++ ":" ++ now.keyStamp) m)} n ∧
      let key := numbered (i.name ++ ":" ++ now.keyStamp) n
      let x : Session := ⟨key, i, new.titleOf?, now, now, []⟩
      i.owns key ∧ ¬ s.sessions.contains key ∧
        ∃ t, s.create i new now = (.ok (x.summary (s.overrides.get? i = some key)), t) ∧
          (∀ other, t.sessions.get? other = if other = key then some x else s.sessions.get? other) ∧
          t.overrides = s.overrides ∧
          Option.Rel (Directory.Touches (fileName key)) s.disk t.disk := by
  have hfree := not_contains_vacantKey s i now
  have hsearch := search_vacantNumber hfree
  have hbound := vacantNumber_le s (generatedBase i now) 1 s.size
  have howns := owns_vacantKey s i now
  obtain ⟨disk, htouches, hcreate⟩ :=
    createAt_of_taken hfree (text_ne_of_owns howns) htakes false
  refine ⟨_, hsearch, by omega, hsearch.isLeast, howns, hfree, _,
    (create_eq_createAt hname).trans hcreate, fun other => ?_, rfl, htouches⟩
  exact Table.get?_set _ _ _ _

/-- **The third session of a second**: two generated keys are in use, and the sessions are kept in a
directory. -/
theorem create_generated_third :
    let i : Identity := ⟨"cli", "local"⟩
    let noon : Timestamp := ⟨1709294400, 0⟩
    let first : SessionKey := ⟨"cli:local:20240301-120000"⟩
    let second : SessionKey := ⟨"cli:local:20240301-120000-2"⟩
    let s : Store :=
      { sessions :=
          (Table.empty.set first (.new first i none noon)).set second (.new second i none noon)
        disk := some {} }
    let new : NewSession := { key := some " " }
    (∀ raw, new.key = some raw → raw.isAllBlank) ∧
      s.TakesSession (.new (s.vacantKey i noon) i none noon) ∧
      ∃ a t, s.create i new noon = (.ok a, t) ∧ a.key = ⟨"cli:local:20240301-120000-3"⟩ ∧
        t.overrides = s.overrides := by
  intro i noon first second s new
  have hname : ∀ raw, new.key = some raw → raw.isAllBlank := by
    rintro raw ⟨⟩
    decide +kernel
  have htakes : s.TakesSession (.new (s.vacantKey i noon) i none noon) := by
    rintro d ⟨⟩
    decide +kernel
  have hthird : 1 ≤ 3 ∧ ¬ s.sessions.contains (numbered (i.name ++ ":" ++ noon.keyStamp) 3) := by
    decide +kernel
  have hused : ∀ m < 3, 1 ≤ m →
      s.sessions.contains (numbered (i.name ++ ":" ++ noon.keyStamp) m) := by decide +kernel
  have hkey : numbered (i.name ++ ":" ++ noon.keyStamp) 3 = ⟨"cli:local:20240301-120000-3"⟩ := by
    decide +kernel
  obtain ⟨n, -, -, ⟨⟨hpos, hfree⟩, hleast⟩, -, -, t, hcreate, -, hoverrides, -⟩ :=
    create_generated s i hname htakes
  obtain rfl : n = 3 :=
    Nat.le_antisymm (hleast hthird) (Nat.le_of_not_lt fun hlt => hfree (hused n hlt hpos))
  exact ⟨hname, htakes, _, t, hcreate, hkey, hoverrides⟩

end Store

end Parley
