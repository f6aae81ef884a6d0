import Mathlib.Data.List.Infix
import Mathlib.Data.List.Perm.Subperm
import Parley.Proofs.Session.Overrides

/-!
# Whose a key is

An identity owns a key when its name and a colon are where the key and a colon begin
(`owns_iff_begins`).  So of two identities that own one key, one owns the default session of the
other: two identities share no key just when neither is named like a session of the other
(`apart_iff`).

Every key that the store makes for an identity, or takes from it, is the identity's own.  A
generated key is not in use (`not_contains_vacantKey`), and it is the first such, so that it depends
on the identity's keys only, although the search for it counts all sessions (`vacantKey_congr`).
-/

namespace Parley

/-! ## Names in keys -/

theorem owns_iff {i : Identity} {key : SessionKey} :
    i.owns key ↔ key.text = i.name ∨ (i.name ++ ":").toList <+: key.text.toList := by
  rw [Identity.owns, Bool.or_eq_true, beq_iff_eq, String.afterLead?]
  refine or_congr Iff.rfl ?_
  split
  · rename_i hlead
    exact iff_of_true rfl (List.isPrefixOf_iff_prefix.1 hlead)
  · rename_i hlead
    exact iff_of_false nofun (mt List.isPrefixOf_iff_prefix.2 hlead)

/-- The name of an identity begins each of its keys. -/
theorem prefix_of_owns {i : Identity} {key : SessionKey} (h : i.owns key) :
    i.name.toList <+: key.text.toList := by
  rcases owns_iff.1 h with heq | hlead
  · rw [heq]
  · rw [String.toList_append] at hlead
    exact (List.prefix_append _ _).trans hlead

theorem text_ne_of_owns {i : Identity} {key : SessionKey} (h : i.owns key) : key.text ≠ "" := by
  intro hempty
  have hlead := prefix_of_owns h
  rw [hempty, Identity.toList_name] at hlead
  exact List.append_ne_nil_of_right_ne_nil _ (List.cons_ne_nil _ _) (List.prefix_nil.1 hlead)

theorem owns_defaultKey (i : Identity) : i.owns i.defaultKey :=
  owns_iff.2 (.inl rfl)

/-- The name of an identity and a colon begin each of its keys, if a colon is put behind that. -/
theorem owns_iff_begins {i : Identity} {key : SessionKey} :
    i.owns key ↔ (i.name ++ ":").toList <+: (key.text ++ ":").toList := by
  have hcolon : (":" : String).toList = [':'] := rfl
  rw [owns_iff, String.toList_append (s := key.text), hcolon, List.prefix_concat_iff]
  refine or_congr_left ?_
  rw [String.toList_append, hcolon, List.append_left_inj, String.toList_inj, eq_comm]

/-- Two identities that own no key in common. -/
def Identity.Apart (i j : Identity) : Prop := ∀ key, i.owns key → ¬ j.owns key

/-- **Identities own no key in common just when neither owns the other's default session.** -/
theorem apart_iff {i j : Identity} :
    i.Apart j ↔ ¬ i.owns j.defaultKey ∧ ¬ j.owns i.defaultKey := by
  constructor
  · intro h
    exact ⟨fun hi => h _ hi (owns_defaultKey j), h _ (owns_defaultKey i)⟩
  · rintro ⟨hij, hji⟩ key hi hj
    rw [owns_iff_begins] at hi hj
    rcases List.prefix_or_prefix_of_prefix hi hj with hlead | hlead
    · exact hij (owns_iff_begins.2 hlead)
    · exact hji (owns_iff_begins.2 hlead)

/-- In one channel, a chat without a colon in it is nobody else's session. -/
theorem not_owns_defaultKey {i j : Identity} (hchannel : i.channel = j.channel) (hne : i ≠ j)
    (hcolon : ':' ∉ j.chat.toList) : ¬ i.owns j.defaultKey := by
  intro h
  have hlead : i.chat.toList ++ [':'] <+: j.chat.toList ++ [':'] := by
    rw [owns_iff_begins, Identity.defaultKey, String.toList_append, String.toList_append,
      Identity.toList_name, Identity.toList_name, hchannel, List.append_assoc, List.append_assoc,
      List.prefix_append_right_inj, List.cons_append, List.cons_append, List.cons_prefix_cons] at h
    exact h.2
  rcases List.prefix_concat_iff.1 hlead with heq | hlead
  · have hchat := String.toList_inj.1 (List.append_cancel_right heq)
    exact hne (by rw [Identity.mk.injEq]; exact ⟨hchannel, hchat⟩)
  · exact hcolon (hlead.subset (List.mem_append_right _ List.mem_cons_self))

/-! ## Keys of the store -/

theorem owns_append (i : Identity) (rest : String) : i.owns ⟨i.name ++ ":" ++ rest⟩ := by
  refine owns_iff.2 (.inr ?_)
  rw [String.toList_append (s := i.name ++ ":")]
  exact List.prefix_append _ _

/-- All generated keys are the identity's own. -/
theorem owns_numbered (i : Identity) (now : Timestamp) (n : Nat) :
    i.owns (Store.numbered (Store.generatedBase i now) n) := by
  rw [Store.numbered, Store.generatedBase]
  split
  · exact owns_append i _
  · have hsplit : i.name ++ ":" ++ now.keyStamp ++ "-" ++ toString n =
        i.name ++ ":" ++ (now.keyStamp ++ ("-" ++ toString n)) := by
      simp only [String.append_assoc]
    rw [hsplit]
    exact owns_append i _

theorem owns_vacantKey (s : Store) (i : Identity) (now : Timestamp) :
    i.owns (s.vacantKey i now) :=
  owns_numbered i now _

/-- **A key is made by the rule by which names are looked up**, when it is the identity's own. -/
theorem requestedKey_eq (i : Identity) (name : String) :
    Store.requestedKey i name =
      if i.owns (Store.nameKey i name) then .ok (Store.nameKey i name)
      else .error (.invalidArguments "session_manage" (some "session_key")
        ("key '" ++ name ++ "' does not belong to " ++ i.name)) := by
  rw [Store.requestedKey, Store.nameKey]
  split
  · rfl
  · exact (if_pos (owns_append i _)).symm

theorem owns_requestedKey {i : Identity} {name : String} {key : SessionKey}
    (h : Store.requestedKey i name = .ok key) : i.owns key := by
  rw [requestedKey_eq] at h
  split at h
  · rename_i howns
    rw [← Except.ok.inj h]
    exact howns
  · cases h

theorem lookup_ok {s : Store} {i : Identity} {raw : String} {key : SessionKey}
    (h : s.lookup i raw = .ok key) : i.owns key ∧ s.sessions.contains key := by
  rw [Store.lookup] at h
  split at h
  · rename_i hfound
    rw [← Except.ok.inj h]
    exact Bool.and_eq_true_iff.1 hfound
  · cases h

namespace Store

variable {i : Identity} {s t : Store} {now : Timestamp}

/-! ## Generated keys -/

theorem numbered_inj (base : String) {m n : Nat} (hm : 1 ≤ m) (hn : 1 ≤ n)
    (h : numbered base m = numbered base n) : m = n := by
  have hlonger (k : Nat) : base ++ "-" ++ toString k ≠ base := by
    intro heq
    have hlength := congrArg String.length heq
    rw [String.length_append, String.length_append] at hlength
    have hdash : ("-" : String).length = 1 := rfl
    omega
  rw [numbered, numbered] at h
  split_ifs at h with hmOne hnOne hnOne
  · omega
  · exact absurd (SessionKey.mk.inj h).symm (hlonger n)
  · exact absurd (SessionKey.mk.inj h) (hlonger m)
  · rw [SessionKey.mk.injEq, String.append_right_inj] at h
    have hdigits : Nat.toDigits 10 m = Nat.toDigits 10 n := by
      rw [← Nat.toList_repr, ← Nat.toList_repr]
      exact congrArg String.toList h
    rw [← Nat.ofDigitChars_ten_toDigits (n := m), hdigits, Nat.ofDigitChars_ten_toDigits]

/-- The search passes over keys in use only, and stops at one that is not, or has tried enough. -/
theorem vacantNumber_spec (s : Store) (base : String) (n tries : Nat) :
    n ≤ s.vacantNumber base n tries ∧
      (∀ m, n ≤ m → m < s.vacantNumber base n tries → s.sessions.contains (numbered base m)) ∧
      (s.sessions.contains (numbered base (s.vacantNumber base n tries)) →
        s.vacantNumber base n tries = n + tries) := by
  induction tries generalizing n with
  | zero => exact ⟨Nat.le_refl n, fun m hm hlt => absurd hlt (Nat.not_lt.2 hm), fun _ => rfl⟩
  | succ tries ih =>
    rw [vacantNumber]
    split_ifs with hused
    · obtain ⟨hle, hpassed, hstop⟩ := ih (n + 1)
      refine ⟨Nat.le_of_succ_le hle, fun m hm hlt => ?_, fun h => ?_⟩
      · rcases Nat.eq_or_lt_of_le hm with rfl | hm
        · exact hused
        · exact hpassed m hm hlt
      · rw [hstop h]
        omega
    · exact ⟨Nat.le_refl n, fun m hm hlt => absurd hlt (Nat.not_lt.2 hm),
        fun h => absurd h hused⟩

/-- **A generated key is not in use**: of more numbers than there are sessions, one makes a key
that is free. -/
theorem not_contains_vacantKey (s : Store) (i : Identity) (now : Timestamp) :
    ¬ s.sessions.contains (s.vacantKey i now) := by
  intro hused
  set base := generatedBase i now with hbase
  obtain ⟨-, hpassed, hstop⟩ := vacantNumber_spec s base 1 s.size
  have hlast := hstop hused
  -- all keys up to the last one tried are in use, and that is one more than there are sessions
  have hall (m : Nat) (hm : m < s.size + 1) : numbered base (m + 1) ∈ s.sessions.keys := by
    rw [← Table.contains_iff_mem_keys]
    rcases Nat.eq_or_lt_of_le (Nat.le_of_lt_succ hm) with rfl | hlt
    · rw [Nat.add_comm s.size 1, ← hlast]
      exact hused
    · exact hpassed (m + 1) (Nat.le_add_left 1 m) (by omega)
  have hnodup : ((List.range (s.size + 1)).map fun m => numbered base (m + 1)).Nodup := by
    refine List.Nodup.map (fun m n h => ?_) List.nodup_range
    exact Nat.succ_injective (numbered_inj base (Nat.le_add_left 1 m) (Nat.le_add_left 1 n) h)
  have hsubset : ((List.range (s.size + 1)).map fun m => numbered base (m + 1)) ⊆
      s.sessions.keys := by
    intro key hkey
    obtain ⟨m, hm, rfl⟩ := List.mem_map.1 hkey
    exact hall m (List.mem_range.1 hm)
  have hlength := (List.subperm_of_subset hnodup hsubset).length_le
  rw [List.length_map, List.length_range, Table.keys, List.length_map] at hlength
  exact Nat.not_succ_le_self _ hlength

/-- **The generated key depends on which of the identity's keys are in use only.** -/
theorem vacantKey_congr
    (h : ∀ key, i.owns key → s.sessions.contains key = t.sessions.contains key) (now : Timestamp) :
    s.vacantKey i now = t.vacantKey i now := by
  have hle {s t : Store}
      (h : ∀ key, i.owns key → s.sessions.contains key = t.sessions.contains key) :
      s.vacantNumber (generatedBase i now) 1 s.size ≤
        t.vacantNumber (generatedBase i now) 1 t.size := by
    by_contra hlt
    obtain ⟨-, hpassed, -⟩ := vacantNumber_spec s (generatedBase i now) 1 s.size
    obtain ⟨hone, -⟩ := vacantNumber_spec t (generatedBase i now) 1 t.size
    have hused := hpassed _ hone (Nat.lt_of_not_le hlt)
    rw [h _ (owns_numbered i now _)] at hused
    exact not_contains_vacantKey t i now hused
  exact congrArg (numbered _) (Nat.le_antisymm (hle h) (hle fun key hkey => (h key hkey).symm))

end Store

end Parley
