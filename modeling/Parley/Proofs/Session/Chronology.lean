import Parley.Proofs.Session.Transcript

/-!
# Transcripts grow in order

Turns come with any times, and the clock may go back.  A turn that is added gets the time of the
turn before it, if its own is earlier, and counts as the last change at its time or at that of the
clock, whichever is later.  So the times of a transcript never go back, and a session was not
changed last before its last turn (`Session.Chronological`).

Only emptying a transcript and removing a session take turns away.  All other requests leave a
transcript as it is, or add the one turn that they acknowledge to the session that they name
(`grows_answer`).  So, until turns are taken away, a transcript is what it was, followed by the
turns that were acknowledged for it (`grows_after`).
-/

namespace Parley

/-- The times of the turns never go back, and the last change is not before the last turn. -/
structure Session.Chronological (x : Session) : Prop where
  ordered : x.transcript.Pairwise fun t u => t.timestamp.le u.timestamp
  updated : ∀ t ∈ x.transcript.getLast?, t.timestamp.le x.updatedAt

namespace Session.Chronological

variable {x : Session}

/-- A turn that is added keeps a session in order, whatever its time and the clock. -/
theorem extend (h : x.Chronological) (t : Turn) (now : Timestamp) :
    (x.extend t now).2.Chronological := by
  constructor
  · rw [x.transcript_extend, List.pairwise_append]
    refine ⟨h.ordered, List.pairwise_singleton _ _, fun u hu v hv => ?_⟩
    rw [List.mem_singleton.1 hv]
    exact x.le_extend h.ordered hu t now
  · rw [x.transcript_extend, List.getLast?_concat]
    rintro u ⟨⟩
    exact Timestamp.le_max_right _ _

/-- A session without turns is in order. -/
theorem of_nil (h : x.transcript = []) : x.Chronological := by
  constructor
  · rw [h]
    exact .nil
  · rw [h]
    exact nofun

end Session.Chronological

/-- What a turn says and who says it, whenever it was. -/
def Turn.words (t : Turn) : Role × Content := (t.role, t.content)

namespace StoreRequest

/-- A request that takes turns away. -/
def Discards : StoreRequest → Prop
  | clear _ | delete .. => True
  | _ => False

/-- The turn that a request has added to the session under a key, by the answer to it. -/
def acknowledged? (key : SessionKey) : (r : StoreRequest) → r.Answer → Option Turn
  | append k t, .ok _ => if k = key then some t else none
  | _, _ => none

end StoreRequest

namespace Store

/-- The store after some requests, each made at the instant that the clock shows then. -/
def after (s : Store) : List (Timestamp × StoreRequest) → Store
  | [] => s
  | (now, r) :: rest => (answer now r s).2.after rest

/-- The turns that some requests have added to the session under a key. -/
def acknowledged (key : SessionKey) (s : Store) : List (Timestamp × StoreRequest) → List Turn
  | [] => []
  | (now, r) :: rest =>
    (r.acknowledged? key (answer now r s).1).toList ++ (answer now r s).2.acknowledged key rest

variable {s : Store} {key : SessionKey} {x : Session} {now : Timestamp} {r : StoreRequest}
  {sessions : Table SessionKey Session} {overrides : Table Identity SessionKey}

/-! ## In order -/

theorem forall_set {P : Session → Prop} (h : ∀ key x, sessions.get? key = some x → P x) (hx : P x)
    {k : SessionKey} {y : Session} (hy : (sessions.set key x).get? k = some y) : P y := by
  rw [Table.get?_set] at hy
  split at hy
  · cases hy
    exact hx
  · exact h k y hy

/-- Every change keeps all sessions in order. -/
theorem chronological_of_moves (h : ∀ key x, s.sessions.get? key = some x → x.Chronological)
    (hmoves : Moves now s r sessions overrides) :
    ∀ key x, sessions.get? key = some x → x.Chronological := by
  intro k y hy
  cases hmoves with
  | stay | switch | reset => exact h k y hy
  | create | resolve | clear => exact forall_set h (.of_nil rfl) hy
  | append hthere => exact forall_set h ((h _ _ hthere).extend _ now) hy
  | delete =>
    rw [Table.get?_erase] at hy
    split at hy
    · cases hy
    · exact h k y hy

/-- **All sessions stay in order**, along any requests. -/
theorem chronological_after (h : ∀ key x, s.sessions.get? key = some x → x.Chronological)
    (requests : List (Timestamp × StoreRequest)) :
    ∀ key x, (s.after requests).sessions.get? key = some x → x.Chronological := by
  induction requests generalizing s with
  | nil => exact h
  | cons q rest ih =>
    obtain ⟨now, r⟩ := q
    exact ih (chronological_of_moves h (moves_answer now r s))

/-! ## Growing -/

/-- A request that changes no transcript leaves every session as it is. -/
theorem get?_of_moves (h : r.IsQuiet) (hmoves : Moves now s r sessions overrides)
    (hx : s.sessions.get? key = some x) : sessions.get? key = some x := by
  have hother {k : SessionKey} {y : Session} (hvacant : ¬ s.sessions.contains k) :
      (s.sessions.set k y).get? key = some x := by
    rw [Table.get?_set, if_neg]
    · exact hx
    · rintro rfl
      exact hvacant (Option.isSome_iff_exists.2 ⟨x, hx⟩)
  cases hmoves with
  | stay | switch | reset => exact hx
  | create _ hvacant | resolve hvacant => exact hother hvacant
  | append | clear | delete => exact h.elim

/-- **A request that takes no turns away adds the turn that it acknowledges**, to the session that
it names, and no other. -/
theorem grows_answer (s : Store) (now : Timestamp) (hr : ¬ r.Discards)
    (hx : s.sessions.get? key = some x) :
    ∃ y added, (answer now r s).2.sessions.get? key = some y ∧
      y.transcript = x.transcript ++ added ∧
      added.map Turn.words = (r.acknowledged? key (answer now r s).1).toList.map Turn.words := by
  have hquiet (h : r.IsQuiet) : (answer now r s).2.sessions.get? key = some x :=
    get?_of_moves h (moves_answer now r s) hx
  cases r with
  | clear | delete => exact absurd trivial hr
  | append k t =>
    rw [answer]
    rcases s.append_cases k t now with ⟨e, s', heq, huntouched⟩ | ⟨z, disk, hz, -, heq⟩ <;> rw [heq]
    · refine ⟨x, [], ?_, (List.append_nil _).symm, rfl⟩
      rw [huntouched.sessions, hx]
    · by_cases hk : k = key
      · subst hk
        obtain rfl : z = x := Option.some_inj.1 (hz.symm.trans hx)
        obtain ⟨stamp, hextend, -⟩ := z.exists_stamp t now
        refine ⟨_, _, Table.get?_set_self .., z.transcript_extend t now, ?_⟩
        rw [hextend, StoreRequest.acknowledged?, if_pos rfl]
        rfl
      · refine ⟨x, [], ?_, (List.append_nil _).symm, ?_⟩
        · rw [Table.get?_set, if_neg fun h => hk h.symm, hx]
        · rw [StoreRequest.acknowledged?, if_neg hk]
          rfl
  | _ => exact ⟨x, [], hquiet trivial, (List.append_nil _).symm, rfl⟩

/-- **Until turns are taken away, a transcript grows by the turns that are acknowledged for it.** -/
theorem grows_after {requests : List (Timestamp × StoreRequest)}
    (hrequests : ∀ q ∈ requests, ¬ q.2.Discards) (hx : s.sessions.get? key = some x) :
    ∃ y added, (s.after requests).sessions.get? key = some y ∧
      y.transcript = x.transcript ++ added ∧
      added.map Turn.words = (s.acknowledged key requests).map Turn.words := by
  induction requests generalizing s x with
  | nil => exact ⟨x, [], hx, (List.append_nil _).symm, rfl⟩
  | cons q rest ih =>
    obtain ⟨now, r⟩ := q
    obtain ⟨hr, hrest⟩ := List.forall_mem_cons.1 hrequests
    obtain ⟨y, first, hy, hfirst, hwords⟩ := grows_answer s now hr hx
    obtain ⟨z, more, hz, hmore, hmorewords⟩ := ih hrest hy
    refine ⟨z, first ++ more, hz, ?_, ?_⟩
    · rw [hmore, hfirst, List.append_assoc]
    · rw [List.map_append, hwords, hmorewords, acknowledged, List.map_append]

/-- **Transcripts grow in order.**  Let a store begin without sessions, in memory or over any
directory, and let requests be made of it at any instants.  Then the times of every transcript
never go back, and no session was changed last before its last turn.  A further request that is
neither the emptying of a transcript nor the removal of a session leaves every transcript as a
beginning of what it is then: it adds the turn that it acknowledges to the session that the turn is
for, and nothing else; and so do further requests one after the other. -/
theorem transcripts_grow_in_order (disk : Option Directory)
    (requests : List (Timestamp × StoreRequest)) :
    let s := ({ disk } : Store).after requests
    (∀ key x, s.sessions.get? key = some x → x.Chronological) ∧
      (∀ now (r : StoreRequest), ¬ r.Discards → ∀ key x, s.sessions.get? key = some x →
        ∃ y added, (answer now r s).2.sessions.get? key = some y ∧
          y.transcript = x.transcript ++ added ∧
          added.map Turn.words =
            (r.acknowledged? key (answer now r s).1).toList.map Turn.words) ∧
      ∀ more : List (Timestamp × StoreRequest), (∀ q ∈ more, ¬ q.2.Discards) →
        ∀ key x, s.sessions.get? key = some x →
          ∃ y added, (s.after more).sessions.get? key = some y ∧
            y.transcript = x.transcript ++ added ∧
            added.map Turn.words = (s.acknowledged key more).map Turn.words := by
  have hempty (key : SessionKey) (x : Session)
      (hx : ({ disk } : Store).sessions.get? key = some x) : x.Chronological := by cases hx
  exact ⟨chronological_after hempty requests, fun now _ hr _ _ hx => grows_answer _ now hr hx,
    fun _ hmore _ _ hx => grows_after hmore hx⟩

/-- **A turn from before the last one**, added when the clock has gone back. -/
theorem grow_in_order_of_clock_back :
    let i : Identity := ⟨"cli", "local"⟩
    let noon : Timestamp := ⟨1709294400, 0⟩
    let dawn : Timestamp := ⟨1709272800, 0⟩
    let s := inMemory.after [(noon, .resolve i), (dawn, .append i.defaultKey (.user "hi" noon))]
    let r : StoreRequest := .append i.defaultKey (.assistant "ho" dawn)
    ¬ r.Discards ∧ ∃ x y added, s.sessions.get? i.defaultKey = some x ∧ x.Chronological ∧
      (answer dawn r s).2.sessions.get? i.defaultKey = some y ∧
      y.transcript = x.transcript ++ added ∧
      added.map Turn.words = [(.assistant, .text "ho")] := by
  intro i noon dawn s r
  obtain ⟨hordered, hgrows, -⟩ := transcripts_grow_in_order none
    [(noon, .resolve i), (dawn, .append i.defaultKey (.user "hi" noon))]
  have hx : s.sessions.get? i.defaultKey =
      some ⟨i.defaultKey, i, none, noon, noon, [.user "hi" noon]⟩ := rfl
  obtain ⟨y, added, hy, htranscript, hwords⟩ := hgrows dawn r id _ _ hx
  exact ⟨id, _, y, added, hx, hordered _ _ hx, hy, htranscript, hwords⟩

end Store

end Parley
