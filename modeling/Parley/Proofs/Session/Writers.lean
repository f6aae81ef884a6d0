import Parley.Proofs.Session.Callers
import Parley.Proofs.Session.Mirror

/-!
# Sessions that many write

Callers create sessions, look for the session they talk to, add turns and clear, all at once, and
at the beginning there is no session.  When all have returned, nothing is lost and nothing is there
twice (`Scene.Reached.agrees`):

* under a key in use one session was made, by one caller (`makes`), and the other creations met it;
* its turns are those that were added since it was cleared last (`spoken`), in that order;
* its file is read as that session.

Two facts carry this.  A key that is vacant when it is looked up under the lock for creation stays
vacant until the session is placed, since nobody else places one meanwhile; so the file that is
written before (`Stage.Drafted`) is nobody's.  And the file of a key in use is written only under
the lock of its slot, together with the session there, so that the two agree (`Account`).
-/

namespace Parley.Slots

open SessionFile Directory

/-! ## What the deeds come to -/

/-- The sessions that were made under a key, with who made them. -/
def makes (key : SessionKey) (h : History) : List (Nat × Session) :=
  h.filterMap fun (k, deed) =>
    match deed with
    | .made x => if x.key = key then some (k, x) else none
    | _ => none

/-- The turns under a key after one more deed. -/
def hear (key : SessionKey) (said : List (Nat × Turn)) : Nat × Deed → List (Nat × Turn)
  | (k, .said other t) => if other = key then said ++ [(k, t)] else said
  | (_, .cleared other) => if other = key then [] else said
  | _ => said

/-- The turns that were added under a key since it was cleared last, with who added them. -/
def spoken (key : SessionKey) (h : History) : List (Nat × Turn) := h.foldl (hear key) []

/-- A deed that makes no session under a key and changes no turns of one. -/
def Deed.Spares (key : SessionKey) : Deed → Prop
  | made x => x.key ≠ key
  | said other _ | cleared other => other ≠ key
  | _ => True

/-- The deed is the adding of a turn. -/
def Deed.isSaid : Deed → Bool
  | said .. => true
  | _ => false

/-- How the directory refused. -/
def Deed.refusal? : Deed → Option FileError
  | refused e => some e
  | _ => none

variable {key other : SessionKey} {h before after : History} {k n : Nat} {t : Turn}
  {x y winner : Session} {deed : Option Deed} {now : Timestamp} {d d' : Directory}

theorem makes_append (key : SessionKey) (h more : History) :
    makes key (h ++ more) = makes key h ++ makes key more :=
  List.filterMap_append

theorem mem_makes (hmade : (k, .made x) ∈ h) : (k, x) ∈ makes x.key h := by
  refine List.mem_filterMap.2 ⟨_, hmade, ?_⟩
  simp

theorem spoken_concat (key : SessionKey) (h : History) (e : Nat × Deed) :
    spoken key (h ++ [e]) = hear key (spoken key h) e := by
  rw [spoken, List.foldl_append]
  rfl

theorem makes_of_spares (h : History) (k : Nat) (hspares : ∀ a ∈ deed, a.Spares key) :
    makes key (h ++ deed.toList.map (Prod.mk k)) = makes key h := by
  cases deed with
  | none => simp
  | some a =>
    have ha := hspares a rfl
    cases a <;> simp_all [makes, Deed.Spares]

theorem spoken_of_spares (h : History) (k : Nat) (hspares : ∀ a ∈ deed, a.Spares key) :
    spoken key (h ++ deed.toList.map (Prod.mk k)) = spoken key h := by
  cases deed with
  | none => simp
  | some a =>
    have ha := hspares a rfl
    rw [Option.toList_some, List.map_singleton, spoken_concat]
    cases a <;> simp_all [hear, Deed.Spares]

/-- A key without deeds is still without any. -/
theorem nil_of_spares (hnone : makes key h = [] ∧ spoken key h = []) (k : Nat)
    (hspares : ∀ a ∈ deed, a.Spares key) :
    makes key (h ++ deed.toList.map (Prod.mk k)) = [] ∧
      spoken key (h ++ deed.toList.map (Prod.mk k)) = [] :=
  ⟨(makes_of_spares h k hspares).trans hnone.1, (spoken_of_spares h k hspares).trans hnone.2⟩

/-- **A turn that was added after the last clearing is among the turns.** -/
theorem mem_spoken (hafter : ∀ j, (j, .cleared key) ∉ after) :
    (k, t) ∈ spoken key (before ++ (k, .said key t) :: after) := by
  induction after using List.reverseRecOn with
  | nil => simp [spoken_concat, hear]
  | append_singleton after e ih =>
    have hmem := ih fun j hj => hafter j (List.mem_append_left _ hj)
    have hlast : ∀ j, e ≠ (j, .cleared key) := by
      rintro j rfl
      exact hafter j (List.mem_append_right _ List.mem_cons_self)
    rw [← List.cons_append, ← List.append_assoc, spoken_concat]
    obtain ⟨j, a⟩ := e
    cases a with
    | said other u =>
      rw [hear]
      split
      · exact List.mem_append_left _ hmem
      · exact hmem
    | cleared other =>
      have hother : other ≠ key := by
        rintro rfl
        exact hlast j rfl
      rw [hear, if_neg hother]
      exact hmem
    | made | met | unlinked | forgotten | refused => exact hmem

/-- Turns are among those that were ever added. -/
theorem spoken_sublist (key : SessionKey) (h : History) :
    ((spoken key h).map Prod.fst).Sublist ((h.filter (·.2.isSaid)).map Prod.fst) := by
  induction h using List.reverseRecOn with
  | nil => exact .slnil
  | append_singleton h e ih =>
    rw [spoken_concat, List.filter_append, List.map_append]
    have hkeep := ih.trans (List.sublist_append_left _ (([e].filter (·.2.isSaid)).map Prod.fst))
    obtain ⟨j, a⟩ := e
    cases a with
    | said other u =>
      rw [hear]
      split
      · rw [List.map_append]
        exact ih.append (.refl _)
      · exact hkeep
    | cleared other =>
      rw [hear]
      split
      · exact List.nil_sublist _
      · exact hkeep
    | made | met | unlinked | forgotten | refused => exact hkeep

/-- How often a caller is among those whose turns are there. -/
theorem count_spoken_le (key : SessionKey) (h : History) (k : Nat) :
    ((spoken key h).map Prod.fst).count k ≤ (deedsOf k h).countP Deed.isSaid := by
  refine ((spoken_sublist key h).count_le k).trans (Nat.le_of_eq ?_)
  rw [List.count, List.countP_map, List.countP_filter, deedsOf, List.countP_map, List.countP_filter]
  refine List.countP_congr fun e _ => ?_
  simp [and_comm]

/-! ## Files -/

/-- The content is that of the session, but for the time of its last change. -/
def Spells (content : ByteArray) (x : Session) : Prop :=
  ∃ u : Timestamp, u.Valid ∧ content = (text { x with updatedAt := u }).toUTF8

/-- **A content that spells a session is read as that session**, but for the time of its last
change. -/
theorem Spells.read? {content : ByteArray} (hspells : Spells content x)
    (hcreated : x.createdAt.Valid) (hstorable : ∀ t ∈ x.transcript, t.Storable) :
    ∃ said y, content = said.toUTF8 ∧ SessionFile.read? said = some y ∧ Continues x y ∧
      y.transcript = x.transcript := by
  obtain ⟨u, hu, rfl⟩ := hspells
  have hread := read?_text (s := { x with updatedAt := u }) ⟨hcreated, hu, hstorable⟩
  exact ⟨_, _, rfl, hread, ⟨rfl, rfl, rfl, rfl⟩, rfl⟩

/-- A turn that was recorded by its line. -/
theorem Spells.extend {content : ByteArray} (hspells : Spells content x) (t : Turn)
    (now : Timestamp) :
    Spells (content ++ (line (x.extend t now).1.toJson).toUTF8) (x.extend t now).2 := by
  obtain ⟨u, hu, rfl⟩ := hspells
  refine ⟨u, hu, ?_⟩
  rw [← toUTF8_append, ← text_extend]
  rfl

/-- A job whose turn can be read back. -/
def Job.Storable : Job → Prop
  | say t => t.Storable
  | clear => True

theorem storable_extend (hstorable : ∀ u ∈ x.transcript, u.Storable) (ht : t.Storable)
    (now : Timestamp) : (x.extend t now).1.Storable := by
  unfold Session.extend
  cases hlast : x.transcript.getLast? with
  | none => exact ht
  | some last =>
    have hvalid := (hstorable last (List.mem_of_getLast? hlast)).timestamp
    exact ⟨ht.content, ht.timestamp.max hvalid⟩

/-- A job is done to no other file. -/
theorem Job.touches {job : Job} {result : Except FileError Unit} (hnamed : x.key.text ≠ "")
    (hwrite : job.write now x d = (result, d')) : Touches (fileName x.key) d d' := by
  cases job with
  | say t =>
    cases result with
    | ok => exact (recordTurn_ok (s := (x.extend t now).2) hnamed hwrite).1
    | error e => exact (recordTurn_error (s := (x.extend t now).2) hnamed hwrite).1
  | clear =>
    cases result with
    | ok => exact (replace_ok (counts_fileName hnamed) hwrite).1
    | error e => exact (replace_error (counts_fileName hnamed) hwrite).1

/-- **A job that was done is in the file.** -/
theorem Job.write_ok {job : Job} (hnamed : x.key.text ≠ "")
    (hfile : ∃ content, d.entries.get? (fileName x.key) = some (.file content) ∧ Spells content x)
    (hstorable : ∀ u ∈ x.transcript, u.Storable) (hjob : job.Storable) (hnow : now.Valid)
    (hwrite : job.write now x d = (.ok (), d')) :
    ∃ content, d'.entries.get? (fileName x.key) = some (.file content) ∧
      Spells content (job.apply now x) := by
  cases job with
  | say t =>
    have hvalid := (storable_extend hstorable hjob now).timestamp
    obtain ⟨-, hwritten⟩ := recordTurn_ok (s := (x.extend t now).2) hnamed hwrite
    rcases hwritten with ⟨before, hbefore, hadded⟩ | hwhole
    · obtain ⟨content, hcontent, hspells⟩ := hfile
      cases hcontent.symm.trans hbefore
      exact ⟨_, hadded, hspells.extend t now⟩
    · exact ⟨_, hwhole, _, hnow.max hvalid, rfl⟩
  | clear =>
    obtain ⟨-, hwhole⟩ := replace_ok (counts_fileName hnamed) hwrite
    exact ⟨_, hwhole, now, hnow, rfl⟩

/-- A job that the directory refused has left the file as it is. -/
theorem Job.write_error {job : Job} {e : FileError} (hnamed : x.key.text ≠ "")
    (hwrite : job.write now x d = (.error e, d')) :
    d'.entries.get? (fileName x.key) = d.entries.get? (fileName x.key) := by
  cases job with
  | say t => exact (recordTurn_error (s := (x.extend t now).2) hnamed hwrite).2
  | clear => exact (replace_error (counts_fileName hnamed) hwrite).2

/-- A job that failed left all files as they were. -/
theorem Job.get?_of_error {job : Job} {e : FileError} {name : String} (hnamed : x.key.text ≠ "")
    (hwrite : job.write now x d = (.error e, d')) (hname : Counts name) :
    d'.entries.get? name = d.entries.get? name := by
  by_cases heq : name = fileName x.key
  · rw [heq]
    exact Job.write_error hnamed hwrite
  · exact (Job.touches hnamed hwrite).others name hname heq

/-! ## Sessions and their accounts -/

/-- A session is what the deeds under its key come to, and its file spells it. -/
structure Account (h : History) (d : Directory) (x : Session) : Prop where
  named : x.key.text ≠ ""
  made : ∃ k winner, makes x.key h = [(k, winner)] ∧ Continues winner x
  createdAt : x.createdAt.Valid
  transcript : x.transcript = (spoken x.key h).map Prod.snd
  storable : ∀ t ∈ x.transcript, t.Storable
  ordered : x.transcript.Pairwise fun t u => t.timestamp.le u.timestamp
  file : ∃ content, d.entries.get? (fileName x.key) = some (.file content) ∧ Spells content x

/-- A deed spared its key, and its file stayed the same. -/
theorem Account.frame (ha : Account h d x) (k : Nat) (hspares : ∀ a ∈ deed, a.Spares x.key)
    (hfile : d'.entries.get? (fileName x.key) = d.entries.get? (fileName x.key)) :
    Account (h ++ deed.toList.map (Prod.mk k)) d' x := by
  refine ⟨ha.named, ?_, ha.createdAt, ?_, ha.storable, ha.ordered, ?_⟩
  · rw [makes_of_spares h k hspares]
    exact ha.made
  · rw [spoken_of_spares h k hspares]
    exact ha.transcript
  · rw [hfile]
    exact ha.file

/-- **A session was made.** -/
theorem Account.made_concat (hnamed : x.key.text ≠ "") (hcreated : x.createdAt.Valid)
    (hempty : x.transcript = [])
    (hfile : ∃ content, d.entries.get? (fileName x.key) = some (.file content) ∧ Spells content x)
    (hmakes : makes x.key h = []) (hspoken : spoken x.key h = []) (k : Nat) :
    Account (h ++ [(k, .made x)]) d x := by
  refine ⟨hnamed, ⟨k, x, ?_, .refl x⟩, hcreated, ?_, ?_, ?_, hfile⟩
  · rw [makes_append, hmakes]
    simp [makes]
  · simp [spoken_concat, hspoken, hear, hempty]
  · simp [hempty]
  · simp [hempty]

/-- **A job was done.** -/
theorem Account.job (ha : Account h d x) {job : Job} (hjob : job.Storable) (hnow : now.Valid)
    (hwrite : job.write now x d = (.ok (), d')) (k : Nat) :
    Account (h ++ [(k, job.deed now x)]) d' (job.apply now x) := by
  have hfile := Job.write_ok ha.named ha.file ha.storable hjob hnow hwrite
  obtain ⟨j, winner, hmakes, hcontinues⟩ := ha.made
  have hmade : ∃ j winner, makes x.key (h ++ [(k, job.deed now x)]) = [(j, winner)] ∧
      Continues winner (job.apply now x) := by
    refine ⟨j, winner, ?_, hcontinues.trans (job.continues now x)⟩
    rw [makes_append, hmakes]
    cases job <;> rfl
  cases job with
  | say t =>
    refine ⟨ha.named, hmade, ha.createdAt, ?_, ?_, ?_, hfile⟩
    · show x.transcript ++ [(x.extend t now).1] = (spoken x.key _).map Prod.snd
      simp [spoken_concat, Job.deed, hear, ha.transcript]
    · show ∀ u ∈ x.transcript ++ [(x.extend t now).1], u.Storable
      rw [List.forall_mem_append]
      refine ⟨ha.storable, fun u hu => ?_⟩
      rw [List.mem_singleton.1 hu]
      exact storable_extend ha.storable hjob now
    · show (x.transcript ++ [(x.extend t now).1]).Pairwise _
      rw [List.pairwise_append]
      refine ⟨ha.ordered, List.pairwise_singleton _ _, fun u hu v hv => ?_⟩
      rw [List.mem_singleton.1 hv]
      exact x.le_extend ha.ordered hu t now
  | clear =>
    refine ⟨ha.named, hmade, ha.createdAt, ?_, nofun, .nil, hfile⟩
    show [] = (spoken x.key _).map Prod.snd
    simp [spoken_concat, Job.deed, hear]

/-! ## What is kept -/

/-- Every key in use has the account of its session, every other one has none, and every slot is
that of a key in use. -/
structure Kept (sh : Shared) (h : History) : Prop where
  account : ∀ key n, sh.index.get? key = some n →
    ∃ x, sh.slots[n]? = some x ∧ x.key = key ∧ Account h sh.disk x
  vacant : ∀ key, sh.index.get? key = none → makes key h = [] ∧ spoken key h = []
  slotted : ∀ n x, sh.slots[n]? = some x → sh.index.get? x.key = some n

namespace Kept

variable {sh sh' : Shared}

theorem start (d : Directory) : Kept { disk := d } [] := by
  constructor
  · intro key n hn
    simp at hn
  · intro key _
    exact ⟨rfl, rfl⟩
  · intro n x hx
    simp at hx

/-- The session in a slot has an account. -/
theorem account_of_slot (hk : Kept sh h) (hx : sh.slots[n]? = some x) : Account h sh.disk x := by
  obtain ⟨y, hy, -, ha⟩ := hk.account x.key n (hk.slotted n x hx)
  rw [hx] at hy
  cases hy
  exact ha

/-- A key that is vacant shares its file with no session in a slot. -/
theorem fileName_ne (hk : Kept sh h) (hvacant : sh.index.get? key = none)
    (hx : sh.slots[n]? = some x) : fileName x.key ≠ fileName key := by
  intro heq
  rw [← fileName_injective heq, hk.slotted n x hx] at hvacant
  cases hvacant

/-- **No session and no file of one changed.** -/
theorem still (hk : Kept sh h) (k : Nat) (hslots : sh'.slots = sh.slots)
    (hindex : sh'.index = sh.index)
    (hfiles : ∀ (n : Nat) (x : Session), sh.slots[n]? = some x → Account h sh.disk x →
      sh'.disk.entries.get? (fileName x.key) = sh.disk.entries.get? (fileName x.key))
    (hspares : ∀ key, ∀ a ∈ deed, a.Spares key) :
    Kept sh' (h ++ deed.toList.map (Prod.mk k)) := by
  refine ⟨fun key n hn => ?_, fun key hn => ?_, fun n x hx => ?_⟩
  · rw [hindex] at hn
    obtain ⟨x, hx, hkey, ha⟩ := hk.account key n hn
    rw [hslots]
    exact ⟨x, hx, hkey, ha.frame k (hspares x.key) (hfiles n x hx ha)⟩
  · rw [hindex] at hn
    exact nil_of_spares (hk.vacant key hn) k (hspares key)
  · rw [hindex]
    exact hk.slotted n x (hslots ▸ hx)

/-- **A session was placed** under a vacant key, and its file had been written. -/
theorem place (hk : Kept sh h) (hvacant : sh.index.get? x.key = none) (hnamed : x.key.text ≠ "")
    (hcreated : x.createdAt.Valid) (hempty : x.transcript = [])
    (hfile : ∃ content, sh.disk.entries.get? (fileName x.key) = some (.file content) ∧
      Spells content x) (k : Nat) :
    Kept (sh.place x) (h ++ [(k, .made x)]) := by
  have hspares {key : SessionKey} (hne : key ≠ x.key) :
      ∀ a ∈ some (Deed.made x), a.Spares key := by
    rintro a ⟨⟩
    exact Ne.symm hne
  obtain ⟨hnomakes, hnospoken⟩ := hk.vacant x.key hvacant
  refine ⟨fun key n hn => ?_, fun key hn => ?_, fun n y hy => ?_⟩
  · dsimp only [Shared.place] at hn ⊢
    rw [Table.get?_set] at hn
    split at hn
    case isTrue hkey =>
      cases hn
      exact ⟨x, List.getElem?_concat_length, hkey.symm,
        .made_concat hnamed hcreated hempty hfile hnomakes hnospoken k⟩
    case isFalse hne =>
      obtain ⟨y, hy, rfl, ha⟩ := hk.account key n hn
      obtain ⟨hlt, -⟩ := List.getElem?_eq_some_iff.1 hy
      rw [List.getElem?_append_left hlt]
      exact ⟨y, hy, rfl, ha.frame k (hspares hne) rfl⟩
  · dsimp only [Shared.place] at hn
    rw [Table.get?_set] at hn
    split at hn
    case isTrue => cases hn
    case isFalse hne => exact nil_of_spares (hk.vacant key hn) k (hspares hne)
  · dsimp only [Shared.place] at hy ⊢
    rw [Table.get?_set]
    rcases Nat.lt_trichotomy n sh.slots.length with hlt | rfl | hgt
    · rw [List.getElem?_append_left hlt] at hy
      have hold := hk.slotted n y hy
      rw [if_neg]
      · exact hold
      · intro hkey
        rw [hkey, hvacant] at hold
        cases hold
    · rw [List.getElem?_concat_length] at hy
      cases hy
      rw [if_pos rfl]
    · rw [List.getElem?_eq_none (by simp; omega)] at hy
      cases hy

/-- **A job was done** on the session in a slot, and on its file. -/
theorem work (hk : Kept sh h) {job : Job} (hx : sh.slots[n]? = some x) (hjob : job.Storable)
    (hnow : now.Valid) (hwrite : job.write now x sh.disk = (.ok (), d)) (k : Nat) :
    Kept { sh with slots := sh.slots.set n (job.apply now x), disk := d }
      (h ++ [(k, job.deed now x)]) := by
  have ha := hk.account_of_slot hx
  have hn := hk.slotted n x hx
  obtain ⟨hlt, -⟩ := List.getElem?_eq_some_iff.1 hx
  have htouches := Job.touches ha.named hwrite
  have hkey : (job.apply now x).key = x.key := (job.continues now x).key
  have hspares {key : SessionKey} (hne : key ≠ x.key) :
      ∀ a ∈ some (job.deed now x), a.Spares key := by
    rintro a ⟨⟩
    cases job <;> exact Ne.symm hne
  refine ⟨fun key m hm => ?_, fun key hnone => ?_, fun m y hy => ?_⟩
  · dsimp only
    obtain ⟨y, hy, rfl, hother⟩ := hk.account key m hm
    by_cases hmn : n = m
    · subst hmn
      cases hx.symm.trans hy
      rw [List.getElem?_set_self hlt]
      exact ⟨_, rfl, hkey, ha.job hjob hnow hwrite k⟩
    · have hne : y.key ≠ x.key := by
        intro heq
        rw [heq] at hm
        exact hmn (Option.some_inj.1 (hn.symm.trans hm))
      rw [List.getElem?_set_ne hmn]
      refine ⟨y, hy, rfl, hother.frame k (hspares hne) (htouches.others _ ?_ ?_)⟩
      · exact counts_fileName hother.named
      · exact fun heq => hne (fileName_injective heq)
  · have hne : key ≠ x.key := by
      rintro rfl
      cases hn.symm.trans hnone
    exact nil_of_spares (hk.vacant key hnone) k (hspares hne)
  · dsimp only at hy ⊢
    rw [List.getElem?_set] at hy
    split at hy
    case isTrue hnm =>
      subst hnm
      cases hy
      rw [hkey]
      exact hn
    case isFalse => exact hk.slotted m y hy

end Kept

/-! ## Steps -/

/-- The calls that create, resolve, add turns that can be read back, and clear. -/
def Call.IsWriter : Call → Prop
  | append _ t => t.Storable
  | delete .. => False
  | create .. | resolve _ | clear _ => True

namespace Stage

/-- Nothing is left to do of a creation that was begun under its lock. -/
def Clear : Stage → Prop
  | write .. | place .. => False
  | take _ s | free _ s => s.Clear
  | _ => True

/-- The key of a session that is to be placed is vacant, and when its file was written, that spells
it. -/
def Drafted (sh : Shared) : Stage → Prop
  | write w _ => sh.index.get? w.key = none
  | place w x => sh.index.get? w.key = none ∧
      ∃ content, sh.disk.entries.get? (fileName x.key) = some (.file content) ∧ Spells content x
  | take _ s | free _ s => s.Clear
  | _ => True

variable {sh sh' : Shared} {s s' : Stage}

theorem Clear.drafted (hclear : s.Clear) : s.Drafted sh := by
  cases s with
  | write | place => exact hclear.elim
  | take | free => exact hclear
  | start | draft | check | glance | compare | consult | work | seek | unlink | forget | drop
  | returned => trivial

theorem clear_made (w : Wish) (n : Nat) : (w.made n).Clear := by
  unfold Wish.made
  split <;> trivial

theorem clear_met (w : Wish) (n : Nat) : (w.met n).Clear := by
  unfold Wish.met
  split <;> trivial

theorem clear_attend (sh : Shared) (key : SessionKey) (job : Job) : (attend sh key job).Clear := by
  unfold attend
  split <;> trivial

theorem drafted_of_look (h : s.look now sh = some (deed, s')) : s'.Drafted sh := by
  cases s with
  | start c =>
    cases c with
    | create i new =>
      simp only [look] at h
      split at h <;> cases h <;> trivial
    | append key t =>
      cases h
      exact (clear_attend ..).drafted
    | clear key =>
      cases h
      exact (clear_attend ..).drafted
    | resolve | delete =>
      cases h
      trivial
  | check w x =>
    simp only [look] at h
    split at h <;> cases h
    case h_1 n _ => exact clear_met w n
    case h_2 hvacant => exact hvacant
  | glance w n =>
    obtain ⟨x, -, heq⟩ := Option.map_eq_some_iff.1 h
    cases heq
    trivial
  | draft w | compare w t =>
    cases h
    trivial
  | consult i | seek i name =>
    simp only [look] at h
    split at h <;> cases h <;> trivial
  | take | free | write | place | work | unlink | forget | drop | returned => cases h

theorem spares_of_look (h : s.look now sh = some (deed, s')) (key : SessionKey) :
    ∀ a ∈ deed, a.Spares key := by
  rintro a ⟨⟩
  obtain hnone | ⟨other, hmet⟩ := deed_of_look h
  · cases hnone
  · cases hmet
    trivial

end Stage

section Effect

variable {sh sh' : Shared} {s s' : Stage} {c : Call} {deeds : List Deed}
  {O : Identity → SessionKey → Prop}

/-- The session that a creation is about to place. -/
theorem Call.Wants.placed {w : Wish} (hwants : c.Wants deeds w)
    (hx : ∃ now : Timestamp, now.Valid ∧ x = w.session now) :
    x.key = w.key ∧ x.key.text ≠ "" ∧ x.createdAt.Valid ∧ x.transcript = [] ∧
      x.updatedAt.Valid := by
  obtain ⟨now, hnow, rfl⟩ := hx
  exact ⟨rfl, text_ne_of_owns hwants.1.owns, hnow, rfl, hnow⟩

/-- The file of a session that is about to be placed is written. -/
theorem drafted_of_effect (hdrafted : s.Drafted sh) (hfits : s.Fits O sh.slots c deeds)
    (he : Effect now sh s deed sh' s') : s'.Drafted sh' := by
  cases he with
  | take l s => exact Stage.Clear.drafted hdrafted
  | free l s => exact Stage.Clear.drafted hdrafted
  | look hlook => exact Stage.drafted_of_look hlook
  | @write w x d hwrite =>
    obtain ⟨-, hnamed, -, -, hupdated⟩ := hfits.1.placed hfits.2
    obtain ⟨-, hfile⟩ := replace_ok (counts_fileName hnamed) hwrite
    exact ⟨hdrafted, _, hfile, _, hupdated, rfl⟩
  | place w x => exact Stage.clear_made w _
  | notWrite | work | notWork | unlink | notUnlink | forget | drop | notDrop => trivial

/-- **Who is not creating leaves vacant keys vacant**, and their files as they are. -/
theorem Kept.vacant_of_effect (hk : Kept sh h) (hfits : s.Fits O sh.slots c deeds)
    (hc : c.IsWriter) (he : Effect now sh s deed sh' s') (hlock : s.lock? ≠ some .creating)
    (hvacant : sh.index.get? key = none) (hnamed : key.text ≠ "") :
    sh'.index.get? key = none ∧
      sh'.disk.entries.get? (fileName key) = sh.disk.entries.get? (fileName key) := by
  cases he with
  | take | free | look | notDrop => exact ⟨hvacant, rfl⟩
  | write | notWrite | place => exact absurd rfl hlock
  | work hx hwrite | notWork hx hwrite =>
    have htouches := Job.touches (hk.account_of_slot hx).named hwrite
    exact ⟨hvacant, htouches.others _ (counts_fileName hnamed)
      (hk.fileName_ne hvacant hx).symm⟩
  | unlink | notUnlink | forget | drop =>
    obtain ⟨name, rfl, -⟩ := hfits
    exact hc.elim

/-- **Every step keeps the accounts.** -/
theorem Kept.of_effect (hk : Kept sh h) (hdrafted : s.Drafted sh)
    (hfits : s.Fits O sh.slots c deeds) (hc : c.IsWriter) (hnow : now.Valid)
    (he : Effect now sh s deed sh' s') (k : Nat) :
    Kept sh' (h ++ deed.toList.map (Prod.mk k)) := by
  cases he with
  | take | free | notDrop => exact hk.still k rfl rfl (fun _ _ _ _ => rfl) nofun
  | look hlook =>
    exact hk.still k rfl rfl (fun _ _ _ _ => rfl) (Stage.spares_of_look hlook)
  | @write w x d hwrite =>
    obtain ⟨hkey, hnamed, -⟩ := hfits.1.placed hfits.2
    obtain ⟨htouches, -⟩ := replace_ok (counts_fileName hnamed) hwrite
    rw [hkey] at htouches
    refine hk.still k rfl rfl (fun n y hy ha => ?_) nofun
    exact htouches.others _ (counts_fileName ha.named) (hk.fileName_ne hdrafted hy)
  | @notWrite w x e d hwrite =>
    obtain ⟨hkey, hnamed, -⟩ := hfits.1.placed hfits.2
    obtain ⟨htouches, -⟩ := replace_error (counts_fileName hnamed) hwrite
    rw [hkey] at htouches
    refine hk.still k rfl rfl (fun n y hy ha => ?_) ?_
    · exact htouches.others _ (counts_fileName ha.named) (hk.fileName_ne hdrafted hy)
    · rintro key a ⟨⟩
      trivial
  | place w x =>
    obtain ⟨hkey, hnamed, hcreated, hempty, -⟩ := hfits.1.placed hfits.2
    have hvacant := hdrafted.1
    rw [← hkey] at hvacant
    exact hk.place hvacant hnamed hcreated hempty hdrafted.2 k
  | @work n job x d hx hwrite =>
    obtain ⟨-, y, -, hcall⟩ := hfits
    have hjob : job.Storable := by
      cases job with
      | say t =>
        cases hcall
        exact hc
      | clear => trivial
    exact hk.work hx hjob hnow hwrite k
  | @notWork n job x e d hx hwrite =>
    have hnamed := (hk.account_of_slot hx).named
    refine hk.still k rfl rfl (fun m y hy ha => ?_) ?_
    · exact Job.get?_of_error hnamed hwrite (counts_fileName ha.named)
    · rintro key a ⟨⟩
      trivial
  | unlink | notUnlink | forget | drop =>
    obtain ⟨name, rfl, -⟩ := hfits
    exact hc.elim

/-- What was written of a session that another caller is about to place stays. -/
theorem drafted_of_vacant (hdrafted : s.Drafted sh) (hfits : s.Fits O sh.slots c deeds)
    (hstays : s.lock? = some .creating → ∀ key : SessionKey, sh.index.get? key = none →
      key.text ≠ "" → sh'.index.get? key = none ∧
        sh'.disk.entries.get? (fileName key) = sh.disk.entries.get? (fileName key)) :
    s.Drafted sh' := by
  cases s with
  | write w x =>
    obtain ⟨hkey, hnamed, -⟩ := hfits.1.placed hfits.2
    rw [hkey] at hnamed
    exact (hstays rfl _ hdrafted hnamed).1
  | place w x =>
    obtain ⟨hkey, hnamed, -⟩ := hfits.1.placed hfits.2
    obtain ⟨hvacant, hfile⟩ := hdrafted
    rw [hkey] at hnamed hfile
    obtain ⟨hvacant', hsame⟩ := hstays rfl _ hvacant hnamed
    refine ⟨hvacant', ?_⟩
    rw [hkey, hsame]
    exact hfile
  | take | free => exact hdrafted
  | start | draft | check | glance | compare | consult | work | seek | unlink | forget | drop
  | returned => trivial

end Effect

/-! ## Interleavings -/

theorem indexed_vacant (d : Directory) : Shared.Indexed { disk := d } := by
  intro key n hn
  simp at hn

/-- All accounts are kept, and what is about to be placed is drafted. -/
structure Scene.Sound (sc : Scene) : Prop where
  kept : Kept sc.shared sc.history
  drafted : ∀ (k : Nat) (c : Caller), sc.callers[k]? = some c → c.stage.Drafted sc.shared

/-- **Whatever writers do and in whatever order, the accounts are kept.** -/
theorem Scene.Reached.sound {sc : Scene} (hr : sc.Reached Call.IsWriter { disk := d }) :
    sc.Sound := by
  induction hr with
  | start =>
    refine ⟨.start d, fun k c hk => ?_⟩
    simp at hk
  | come _ c _ ih => exact ⟨ih.kept, forall_come ih.drafted trivial⟩
  | @go sh sh' callers h k b deed s' hreached now hnow hk hstep ih =>
    have ho := hreached.orderly (indexed_vacant d)
    have he := effect_of_step hstep
    have hwriter := hreached.allowed k b hk
    refine ⟨ih.kept.of_effect (ih.drafted k b hk) (ho.fits k b hk) hwriter hnow he k,
      forall_go (fun j c hj hne => ?_) (drafted_of_effect (ih.drafted k b hk) (ho.fits k b hk) he)⟩
    refine drafted_of_vacant (ih.drafted j c hj) (ho.fits j c hj) fun hlock key hvacant hnamed => ?_
    refine ih.kept.vacant_of_effect (ho.fits k b hk) hwriter he (fun hlock' => ?_) hvacant hnamed
    exact hne (ho.exclusive j k c b _ hj hk hlock hlock')

/-! ## When all have returned -/

/-- A creation adds no turn. -/
theorem Wish.Settles.countP_isSaid {w : Wish} {W : Prospect} {deeds : List Deed} {r : Reply}
    (hsettles : w.Settles W deeds r) : deeds.countP Deed.isSaid = 0 := by
  induction hsettles with
  | made | existing | duplicate | refused => rfl
  | again _ _ ih =>
    rw [List.countP_cons, ih]
    rfl

/-- A call adds one turn at most. -/
theorem Call.Settles.countP_isSaid_le {c : Call} {W : Prospect} {deeds : List Deed} {r : Reply}
    (hsettles : c.Settles W deeds r) : deeds.countP Deed.isSaid ≤ 1 := by
  cases c with
  | create i new =>
    obtain ⟨now, hsettles⟩ := hsettles
    split at hsettles
    · rw [hsettles.1]
      exact Nat.zero_le 1
    · rw [hsettles.countP_isSaid]
      exact Nat.zero_le 1
  | resolve i =>
    rcases hsettles with ⟨rfl, -⟩ | hsettles
    · exact Nat.zero_le 1
    · rw [hsettles.countP_isSaid]
      exact Nat.zero_le 1
  | append key t =>
    rcases hsettles with ⟨t', -, rfl, -⟩ | ⟨rfl, -⟩ | ⟨e, -, rfl, -⟩ <;> simp [Deed.isSaid]
  | clear key =>
    rcases hsettles with ⟨rfl, -⟩ | ⟨rfl, -⟩ | ⟨e, -, rfl, -⟩ <;> simp [Deed.isSaid]
  | delete i name =>
    rcases hsettles with ⟨-, rfl, -⟩ | ⟨rfl, -⟩ | ⟨e, -, rfl, -⟩ <;> simp [Deed.isSaid]

theorem mem_of_mem_deedsOf {a : Deed} (ha : a ∈ deedsOf k h) : (k, a) ∈ h := by
  obtain ⟨⟨j, b⟩, hmem, rfl⟩ := List.mem_map.1 ha
  obtain ⟨hh, hj⟩ := List.mem_filter.1 hmem
  rw [← of_decide_eq_true hj]
  exact hh

/-- The only session that was made under its key, which is in use. -/
def Scene.Won (sc : Scene) (x : Session) : Prop :=
  sc.shared.index.contains x.key ∧ ∃ k, makes x.key sc.history = [(k, x)]

namespace Scene.Reached

variable {sc : Scene} {sh : Shared} {P : Call → Prop} {c : Caller}

/-- When all have returned, nobody's turns are there twice. -/
theorem nodup_spoken (hr : sc.Reached P sh) (hi : sh.Indexed)
    (hdone : ∀ c ∈ sc.callers, c.reply?.isSome) (key : SessionKey) :
    ((spoken key sc.history).map Prod.fst).Nodup := by
  have ho := hr.orderly hi
  rw [List.nodup_iff_count_le_one]
  intro k
  refine (count_spoken_le key sc.history k).trans ?_
  cases hk : sc.callers[k]? with
  | none =>
    have hlength := List.getElem?_eq_none_iff.1 hk
    rw [deedsOf_eq_nil fun e he => Nat.lt_of_lt_of_le (ho.below e he) hlength]
    exact Nat.zero_le 1
  | some c =>
    obtain ⟨r, hreply⟩ := Option.isSome_iff_exists.1 (hdone c (List.mem_of_getElem? hk))
    have hfits := ho.fits k c hk
    rw [Caller.stage_of_reply? hreply] at hfits
    exact Call.Settles.countP_isSaid_le hfits

/-- The session in a slot goes on from the only one that was made under its key. -/
theorem won_of_slot (hr : sc.Reached Call.IsWriter { disk := d })
    (hx : x ∈ sc.shared.slots) : ∃ y, sc.Won y ∧ Continues x y := by
  obtain ⟨n, hn⟩ := List.mem_iff_getElem?.1 hx
  have hkept := hr.sound.kept
  obtain ⟨k, winner, hmakes, hcontinues⟩ := (hkept.account_of_slot hn).made
  refine ⟨winner, ⟨?_, k, ?_⟩, hcontinues.symm⟩
  · rw [Table.contains, ← hcontinues.key, hkept.slotted n x hn]
    rfl
  · rw [← hcontinues.key]
    exact hmakes

/-- **A writer that has returned was served**, if the directory refused nothing: it made a session,
or met the one that is under the key. -/
theorem settles (hr : sc.Reached Call.IsWriter { disk := d })
    (hserved : ∀ e ∈ sc.history, e.2.refusal? = none) {r : Reply} (hk : sc.callers[k]? = some c)
    (hreply : c.reply? = some r) :
    c.call.Settles ⟨sc.Won, fun _ _ => False, fun _ => False⟩ (deedsOf k sc.history) r := by
  have hfits := (hr.orderly (indexed_vacant d)).fits k c hk
  rw [Caller.stage_of_reply? hreply] at hfits
  refine Call.Settles.mono hfits ⟨fun x hx => hr.won_of_slot hx, fun i key hkey => ?_,
    fun e he _ => ?_⟩
  · simp [Prospect.among] at hkey
  · have hrefused := hserved _ (mem_of_mem_deedsOf he)
    cases hrefused

/-- **A turn whose adding was acknowledged** was added once, and is there if the session was not
cleared after that. -/
theorem spoken_of_append (hr : sc.Reached P sh) (hi : sh.Indexed) (hk : sc.callers[k]? = some c)
    (hcall : c.call = .append key t) (hreply : c.reply? = some (.unit (.ok ()))) :
    ∃ t' before after, Stamped t t' ∧ sc.history = before ++ (k, .said key t') :: after ∧
      ((∀ j, (j, .cleared key) ∉ after) → (k, t') ∈ spoken key sc.history) := by
  have hfits := (hr.orderly hi).fits k c hk
  rw [Caller.stage_of_reply? hreply, hcall] at hfits
  rcases hfits with ⟨t', hstamped, hdeeds, -⟩ | ⟨-, hnot⟩ | ⟨e, -, -, hnot⟩
  · have hsaid : (k, .said key t') ∈ sc.history := by
      apply mem_of_mem_deedsOf
      rw [hdeeds]
      exact List.mem_cons_self
    obtain ⟨before, after, hsplit⟩ := List.append_of_mem hsaid
    refine ⟨t', before, after, hstamped, hsplit, fun hafter => ?_⟩
    rw [hsplit]
    exact mem_spoken hafter
  · cases hnot
  · cases hnot

/-- **Writers at the same time lose nothing, and nothing is there twice.**  When all have returned
and the directory refused nothing:

1. Under a key in use one session was made.  Its turns are those that were added since it was
   cleared last, each of another caller, in that order and the order of their times; and its file is
   read as the session, with those turns.
2. Every session that was made is under its key.
3. Every other creation met the session under its key, and returned an error or that session, or
   went on to another key.
4. A turn whose adding was acknowledged is among the turns, unless the session was cleared later. -/
theorem agrees (hr : sc.Reached Call.IsWriter { disk := d })
    (hdone : ∀ c ∈ sc.callers, c.reply?.isSome) (hserved : ∀ e ∈ sc.history, e.2.refusal? = none) :
    (∀ key n, sc.shared.index.get? key = some n → ∃ k winner x content y,
      makes key sc.history = [(k, winner)] ∧
      sc.shared.slots[n]? = some x ∧ Continues winner x ∧
      x.transcript = (spoken key sc.history).map Prod.snd ∧
      ((spoken key sc.history).map Prod.fst).Nodup ∧
      (x.transcript.Pairwise fun t u => t.timestamp.le u.timestamp) ∧
      sc.shared.disk.text? (fileName key) = some content ∧ read? content = some y ∧
      Continues winner y ∧ y.transcript = x.transcript) ∧
    (∀ k x, (k, Deed.made x) ∈ sc.history → sc.Won x) ∧
    (∀ (k : Nat) (c : Caller) (r : Reply), sc.callers[k]? = some c → c.reply? = some r →
      c.call.Settles ⟨sc.Won, fun _ _ => False, fun _ => False⟩ (deedsOf k sc.history) r) ∧
    ∀ (k : Nat) (c : Caller) (key : SessionKey) (t : Turn), sc.callers[k]? = some c →
      c.call = .append key t → c.reply? = some (.unit (.ok ())) →
      ∃ t' before after, Stamped t t' ∧ sc.history = before ++ (k, .said key t') :: after ∧
        ((∀ j, (j, .cleared key) ∉ after) → (k, t') ∈ spoken key sc.history) := by
  have hkept := hr.sound.kept
  refine ⟨fun key n hn => ?_, fun k x hmade => ?_,
    fun k c r hk hreply => hr.settles hserved hk hreply,
    fun k c key t hk hcall hreply => hr.spoken_of_append (indexed_vacant d) hk hcall hreply⟩
  · obtain ⟨x, hx, rfl, ha⟩ := hkept.account key n hn
    obtain ⟨k, winner, hmakes, hcontinues⟩ := ha.made
    obtain ⟨content, hcontent, hspells⟩ := ha.file
    obtain ⟨said, y, rfl, hread, hsame, htranscript⟩ := hspells.read? ha.createdAt ha.storable
    exact ⟨k, winner, x, said, y, hmakes, hx, hcontinues, ha.transcript,
      hr.nodup_spoken (indexed_vacant d) hdone x.key, ha.ordered, text?_of_get? hcontent, hread,
      hcontinues.trans hsame, htranscript⟩
  · have hmem := mem_makes hmade
    cases hn : sc.shared.index.get? x.key with
    | none =>
      rw [(hkept.vacant x.key hn).1] at hmem
      cases hmem
    | some n =>
      obtain ⟨y, -, hkey, ha⟩ := hkept.account x.key n hn
      obtain ⟨j, winner, hmakes, -⟩ := ha.made
      rw [hkey] at hmakes
      rw [hmakes] at hmem
      cases List.mem_singleton.1 hmem
      refine ⟨?_, k, hmakes⟩
      rw [Table.contains, hn]
      rfl

/-- Two callers create one session at the same time, and then two turns and a clearing are done at
the same time: the file has the turn that came last. -/
theorem agrees_of_five_calls :
    let i : Identity := ⟨"cli", "local"⟩
    let key : SessionKey := ⟨"cli:local"⟩
    let noon : Timestamp := ⟨1709294400, 0⟩
    let calls : List Call := [.resolve i, .create i { key := some "cli:local" },
      .append key (.user "hi" noon), .clear key, .append key (.user "again" noon)]
    let plan := (List.replicate 13 [0, 1]).flatten ++ (List.replicate 8 [2, 3, 4]).flatten
    let sc := plan.foldl (Scene.turn noon) (.of { disk := {} } calls)
    sc.Reached Call.IsWriter { disk := {} } ∧ (∀ c ∈ sc.callers, c.reply?.isSome) ∧
      (∀ e ∈ sc.history, e.2.refusal? = none) ∧
      (∃ k winner, makes key sc.history = [(k, winner)]) ∧
      (spoken key sc.history).map Prod.fst = [4] ∧
      ∃ content y, sc.shared.disk.text? (fileName key) = some content ∧ read? content = some y ∧
        y.transcript = (spoken key sc.history).map Prod.snd := by
  intro i key noon calls plan sc
  have hnoon : noon.Valid := ⟨by decide, by decide⟩
  have hcalls : ∀ c ∈ calls, c.IsWriter := by
    simp only [calls, List.forall_mem_cons]
    exact ⟨trivial, trivial, ⟨trivial, hnoon⟩, trivial, ⟨trivial, hnoon⟩, nofun⟩
  have hr : sc.Reached Call.IsWriter { disk := {} } :=
    (reached_of { disk := {} } hcalls).play hnoon plan
  have hdone : ∀ c ∈ sc.callers, c.reply?.isSome := by decide +kernel
  have hserved : ∀ e ∈ sc.history, e.2.refusal? = none := by decide +kernel
  have hindex : sc.shared.index.get? key = some 0 := by decide +kernel
  obtain ⟨hkeys, -⟩ := agrees hr hdone hserved
  obtain ⟨k, winner, x, content, y, hmakes, -, -, hx, -, -, hcontent, hread, -, hy⟩ :=
    hkeys key 0 hindex
  exact ⟨hr, hdone, hserved, ⟨k, winner, hmakes⟩, by decide +kernel, content, y, hcontent, hread,
    hy.trans hx⟩

end Scene.Reached

end Parley.Slots
