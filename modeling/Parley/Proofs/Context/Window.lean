import Mathlib.Logic.Relation
import Mathlib.Order.Bounds.Defs
import Mathlib.Tactic.ByContra
import Mathlib.Tactic.Set
import Parley.Context

/-!
# The longest window that fits

When a transcript does not fit into the budget, its window starts at the first turn of the user
from which on all fits, and at the user's last turn if there is none (`windowStart_isLeast`).

The start is found by two loops.  The first leaves out turns and takes their costs off a running
total, which is what the rest costs at every step (`Cut.exact_of_reached`); so it never takes off
more than there is, and nothing that starts earlier fits.  Where it ends, the rest fits or the
user's last turn is reached (`Cut.Exact.stopped`).  The second goes on to the next turn of the user
(`findIdx_isUser`).
-/

namespace Parley.Context

variable {budget last : Nat} {ts : List Turn} {t : Turn} {i j : Nat}

/-! ## Costs -/

theorem total_cons (t : Turn) (ts : List Turn) : total (t :: ts) = cost t + total ts := rfl

/-- A turn costs something, whatever it says. -/
theorem cost_pos (t : Turn) : 0 < cost t := by
  rw [cost, Model.Message.tokens]
  omega

theorem total_pos (h : ts ≠ []) : 0 < total ts := by
  obtain ⟨t, rest, rfl⟩ := List.exists_cons_of_ne_nil h
  rw [total_cons]
  exact Nat.add_pos_left (cost_pos t) _

theorem total_drop (h : ts[i]? = some t) :
    total (ts.drop i) = cost t + total (ts.drop (i + 1)) := by
  obtain ⟨hi, rfl⟩ := List.getElem?_eq_some_iff.1 h
  rw [List.drop_eq_getElem_cons hi, total_cons]

/-- The fewer turns, the lower the cost. -/
theorem total_drop_le (ts : List Turn) (h : i ≤ j) : total (ts.drop j) ≤ total (ts.drop i) := by
  induction h with
  | refl => exact Nat.le_refl _
  | @step j _ ih =>
    refine Nat.le_trans ?_ ih
    cases ht : ts[j]? with
    | none =>
      rw [List.drop_eq_nil_of_le (Nat.le_succ_of_le (List.getElem?_eq_none_iff.1 ht))]
      exact Nat.zero_le _
    | some t =>
      rw [total_drop ht]
      exact Nat.le_add_left _ _

/-! ## The user's last turn -/

/-- The user's last turn is the one at an index. -/
structure IsLastUser (ts : List Turn) (last : Nat) : Prop where
  user : ∃ t, ts[last]? = some t ∧ t.role = .user
  latest : ∀ i t, ts[i]? = some t → t.role = .user → i ≤ last

theorem isUser_iff : isUser t ↔ t.role = .user := by rw [isUser, decide_eq_true_iff]

theorem IsLastUser.lt_length (h : IsLastUser ts last) : last < ts.length := by
  obtain ⟨t, ht, -⟩ := h.user
  exact (List.getElem?_eq_some_iff.1 ht).1

theorem IsLastUser.unique (h : IsLastUser ts i) (h' : IsLastUser ts j) : i = j := by
  obtain ⟨t, ht, hrole⟩ := h.user
  obtain ⟨t', ht', hrole'⟩ := h'.user
  exact Nat.le_antisymm (h'.latest i t ht hrole) (h.latest j t' ht' hrole')

theorem lastUser?_eq_none_iff : lastUser? ts = none ↔ ∀ t ∈ ts, t.role ≠ .user := by
  induction ts with
  | nil => exact ⟨fun _ => nofun, fun _ => rfl⟩
  | cons t rest ih =>
    rw [lastUser?, List.forall_mem_cons, ← ih]
    cases hrest : lastUser? rest with
    | none =>
      by_cases huser : isUser t
      · exact ⟨fun h => by simp [huser] at h, fun h => absurd (isUser_iff.1 huser) h.1⟩
      · exact ⟨fun _ => ⟨fun hrole => huser (isUser_iff.2 hrole), rfl⟩, fun _ => if_neg huser⟩
    | some last => exact ⟨nofun, fun h => absurd h.2 nofun⟩

theorem isLastUser_of_lastUser? (h : lastUser? ts = some last) : IsLastUser ts last := by
  induction ts generalizing last with
  | nil => cases h
  | cons t rest ih =>
    rw [lastUser?] at h
    split at h
    · rename_i before hrest
      cases h
      obtain ⟨huser, hlatest⟩ := ih hrest
      refine ⟨huser, fun i u hu hrole => ?_⟩
      cases i with
      | zero => exact Nat.zero_le _
      | succ i => exact Nat.succ_le_succ (hlatest i u hu hrole)
    · rename_i hrest
      split at h
      · rename_i huser
        cases h
        refine ⟨⟨t, rfl, isUser_iff.1 huser⟩, fun i u hu hrole => ?_⟩
        cases i with
        | zero => exact Nat.le_refl _
        | succ i =>
          exact absurd hrole (lastUser?_eq_none_iff.1 hrest u (List.mem_of_getElem? hu))
      · cases h

theorem exists_isLastUser (h : ∃ t ∈ ts, t.role = .user) : ∃ last, IsLastUser ts last := by
  obtain ⟨t, ht, hrole⟩ := h
  cases hfound : lastUser? ts with
  | none => exact absurd hrole (lastUser?_eq_none_iff.1 hfound t ht)
  | some last => exact ⟨last, isLastUser_of_lastUser? hfound⟩

theorem lastUser?_eq_some_iff : lastUser? ts = some last ↔ IsLastUser ts last := by
  refine ⟨isLastUser_of_lastUser?, fun h => ?_⟩
  cases hfound : lastUser? ts with
  | none =>
    obtain ⟨t, ht, hrole⟩ := h.user
    exact absurd hrole (lastUser?_eq_none_iff.1 hfound t (List.mem_of_getElem? ht))
  | some found => rw [(isLastUser_of_lastUser? hfound).unique h]

/-! ## Leaving turns out -/

namespace Cut

variable {c d : Cut}

/-- The cuts that the first loop comes to. -/
def Reached (budget last : Nat) (ts : List Turn) : Cut → Prop :=
  Relation.ReflTransGen (fun c d => c.next? budget last ts = some d) ⟨0, total ts⟩

/-- What the loop keeps: the cut says what the rest costs, the user's last turn is in the rest, and
nothing that starts before the cut fits. -/
structure Exact (budget last : Nat) (ts : List Turn) (c : Cut) : Prop where
  left : c.left = total (ts.drop c.start)
  start : c.start ≤ last
  unfit : ∀ i, i < c.start → budget < total (ts.drop i)

/-- **What is taken off is there.** -/
theorem Exact.cost_le (h : c.Exact budget last ts) (ht : ts[c.start]? = some t) :
    cost t ≤ c.left := by
  rw [h.left, total_drop ht]
  exact Nat.le_add_right _ _

theorem Exact.next (h : c.Exact budget last ts) (hd : c.next? budget last ts = some d) :
    d.Exact budget last ts := by
  obtain ⟨hover, hlast, t, ht, rfl⟩ := next?_eq_some hd
  refine ⟨?_, hlast, fun i hi => ?_⟩
  · change c.left - cost t = total (ts.drop (c.start + 1))
    rw [h.left, total_drop ht, Nat.add_sub_cancel_left]
  · rcases Nat.eq_or_lt_of_le (Nat.le_of_lt_succ hi) with rfl | hi
    · rwa [← h.left]
    · exact h.unfit i hi

/-- **At every step the running total is what the rest costs.** -/
theorem exact_of_reached (h : Reached budget last ts c) : c.Exact budget last ts := by
  induction h with
  | refl => exact ⟨rfl, Nat.zero_le _, nofun⟩
  | tail _ hd ih => exact ih.next hd

theorem reached_shed (h : Reached budget last ts c) :
    Reached budget last ts (c.shed budget last ts) := by
  induction c using shed.induct budget last ts with
  | case1 c d hd ih =>
    rw [shed, hd]
    exact ih (h.tail hd)
  | case2 c hd =>
    rw [shed, hd]
    exact h

theorem next?_shed (c : Cut) : (c.shed budget last ts).next? budget last ts = none := by
  induction c using shed.induct budget last ts with
  | case1 c d hd ih =>
    rw [shed, hd]
    exact ih
  | case2 c hd =>
    rw [shed, hd]
    exact hd

/-- The loop ends when the rest fits or the user's last turn is reached. -/
theorem Exact.stopped (h : c.Exact budget last ts) (hlast : last ≤ ts.length)
    (hnone : c.next? budget last ts = none) : total (ts.drop c.start) ≤ budget ∨ c.start = last := by
  by_contra hmore
  obtain ⟨hover, hbefore⟩ := not_or.1 hmore
  have hstart : c.start < last := Nat.lt_of_le_of_ne h.start hbefore
  rw [← h.left] at hover
  rw [next?, if_pos ⟨Nat.lt_of_not_le hover, hstart⟩,
    List.getElem?_eq_getElem (Nat.lt_of_lt_of_le hstart hlast)] at hnone
  cases hnone

end Cut

/-! ## Going on to the user -/

/-- The second loop stops at the first turn of the user from an index on. -/
theorem findIdx_isUser (hlast : IsLastUser ts last) (hi : i ≤ last) :
    ∃ j, i + ((ts.take last).drop i).findIdx isUser = j ∧ i ≤ j ∧ j ≤ last ∧
      (∃ t, ts[j]? = some t ∧ t.role = .user) ∧
      ∀ k, i ≤ k → k < j → ∀ t, ts[k]? = some t → t.role ≠ .user := by
  set between := (ts.take last).drop i with hbetween
  have hlength : between.length = last - i := by
    rw [hbetween, List.length_drop, List.length_take, Nat.min_eq_left (Nat.le_of_lt hlast.lt_length)]
  have hget (k : Nat) (hk : i + k < last) : between[k]? = ts[i + k]? := by
    rw [hbetween, List.getElem?_drop, List.getElem?_take, if_pos hk]
  have hle : between.findIdx isUser ≤ last - i := hlength ▸ List.findIdx_le_length
  refine ⟨_, rfl, Nat.le_add_right _ _, by omega, ?_, fun k hik hk t ht hrole => ?_⟩
  · rcases Nat.eq_or_lt_of_le hle with heq | hlt
    · rw [heq, Nat.add_sub_cancel' hi]
      exact hlast.user
    · have hfound := List.findIdx_getElem (w := hlength ▸ hlt)
      refine ⟨_, ?_, isUser_iff.1 hfound⟩
      rw [← hget _ (by omega), List.getElem?_eq_getElem]
  · obtain ⟨k, rfl⟩ := Nat.exists_eq_add_of_le hik
    have hpassed : k < between.findIdx isUser := by omega
    rw [← hget k (by omega)] at ht
    obtain ⟨_, rfl⟩ := List.getElem?_eq_some_iff.1 ht
    exact Bool.false_ne_true ((List.not_of_lt_findIdx hpassed).symm.trans (isUser_iff.2 hrole))

/-! ## The window -/

/-- A window may start at an index: there the user speaks, not after the user's last turn, and all
from there on fits unless it is that turn. -/
structure MayStart (budget last : Nat) (ts : List Turn) (i : Nat) : Prop where
  before : i ≤ last
  user : ∃ t, ts[i]? = some t ∧ t.role = .user
  fits : total (ts.drop i) ≤ budget ∨ i = last

theorem windowStart_of_fits (h : total ts ≤ budget) : windowStart budget ts = 0 := by
  rw [windowStart]
  cases lastUser? ts with
  | none => rfl
  | some last => exact if_pos h

theorem windowStart_of_no_user (h : ∀ t ∈ ts, t.role ≠ .user) : windowStart budget ts = 0 := by
  rw [windowStart, lastUser?_eq_none_iff.2 h]

/-- **Over budget, the window starts where it may, as early as that.** -/
theorem windowStart_isLeast (hlast : IsLastUser ts last) (hover : budget < total ts) :
    IsLeast {i | MayStart budget last ts i} (windowStart budget ts) := by
  have hreached := Cut.reached_shed (.refl : Cut.Reached budget last ts ⟨0, total ts⟩)
  have hstart : windowStart budget ts = (Cut.shed budget last ts ⟨0, total ts⟩).start +
      ((ts.take last).drop (Cut.shed budget last ts ⟨0, total ts⟩).start).findIdx isUser := by
    rw [windowStart, lastUser?_eq_some_iff.2 hlast]
    exact if_neg (Nat.not_le.2 hover)
  have hexact := Cut.exact_of_reached hreached
  have hstopped := hexact.stopped (Nat.le_of_lt hlast.lt_length) (Cut.next?_shed _)
  obtain ⟨j, hj, hcut, hle, huser, hpassed⟩ := findIdx_isUser hlast hexact.start
  rw [hstart, hj]
  refine ⟨⟨hle, huser, ?_⟩, fun i hi => ?_⟩
  · rcases hstopped with hfits | hend
    · exact .inl (Nat.le_trans (total_drop_le ts hcut) hfits)
    · exact .inr (Nat.le_antisymm hle (hend ▸ hcut))
  · by_contra hbefore
    have hij : i < j := Nat.lt_of_not_le hbefore
    rcases Nat.lt_or_ge i (Cut.shed budget last ts ⟨0, total ts⟩).start with hlt | hge
    · -- all cuts before the end of the first loop were over budget
      rcases hi.fits with hfits | rfl
      · exact absurd hfits (Nat.not_le.2 (hexact.unfit i hlt))
      · exact absurd hle (Nat.not_le.2 hij)
    · obtain ⟨t, ht, hrole⟩ := hi.user
      exact hpassed i hge hij t ht hrole

/-- The window never starts after the user's last turn. -/
theorem windowStart_le (budget : Nat) (hlast : IsLastUser ts last) :
    windowStart budget ts ≤ last := by
  rcases Nat.lt_or_ge budget (total ts) with hover | hfits
  · exact (windowStart_isLeast hlast hover).1.before
  · rw [windowStart_of_fits hfits]
    exact Nat.zero_le _

/-- **The window is the longest that may be shown.**  All is shown when the user never speaks or
when all fits.  Otherwise the window starts at the first turn of the user from which on all fits,
or at the user's last turn if there is none before it.  Either way the user's last turn and all
that follow are shown; and whenever a turn is about to be left out, its cost is no more than what
is left to take it off. -/
theorem window_longest (budget : Nat) (ts : List Turn) :
    ((∀ t ∈ ts, t.role ≠ .user) ∨ total ts ≤ budget → windowStart budget ts = 0) ∧
      ∀ last, IsLastUser ts last →
        (budget < total ts → IsLeast {i | MayStart budget last ts i} (windowStart budget ts)) ∧
        ts.drop last <:+ window budget ts ∧
        ∀ c, Cut.Reached budget last ts c → ∀ t, ts[c.start]? = some t → cost t ≤ c.left := by
  refine ⟨fun h => h.elim windowStart_of_no_user windowStart_of_fits,
    fun last hlast => ⟨windowStart_isLeast hlast, ?_, fun c hc t ht => ?_⟩⟩
  · obtain ⟨k, hk⟩ := Nat.exists_eq_add_of_le (windowStart_le budget hlast)
    rw [window, hk, ← List.drop_drop]
    exact List.drop_suffix k _
  · exact (Cut.exact_of_reached hc).cost_le ht

/-- **A window that fits from a call on** starts at the next turn of the user. -/
theorem window_longest_past_call :
    let noon : Timestamp := ⟨1709294400, 0⟩
    let ts : List Turn := [.user "Read the notes and the plans, please." noon,
      .toolCall "c1" "read" (.obj []) noon, .toolResult "c1" "read" "Nothing in there." .ok noon,
      .assistant "There is nothing." noon, .user "And now?" noon]
    IsLastUser ts 4 ∧ 60 < total ts ∧ total (ts.drop 1) ≤ 60 ∧ windowStart 60 ts = 4 ∧
      IsLeast {i | MayStart 60 4 ts i} 4 := by
  intro noon ts
  have hlast : IsLastUser ts 4 := isLastUser_of_lastUser? (by decide +kernel)
  have hover : 60 < total ts := by decide +kernel
  have hstart : windowStart 60 ts = 4 := by decide +kernel
  have hleast := ((window_longest 60 ts).2 4 hlast).1 hover
  rw [hstart] at hleast
  exact ⟨hlast, hover, by decide +kernel, hstart, hleast⟩

end Parley.Context
