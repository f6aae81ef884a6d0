import Parley.Proofs.Session.Keys
import Parley.Proofs.Session.Slots
import Parley.Proofs.Session.Transcript

/-!
# What callers do and return

What a call returns goes with its deeds (`Call.Settles`), in every interleaving: a turn is
acknowledged just when it was added, once; a creation either makes a session, or meets the one that
is there and returns an error, that session, or goes on to another key; a deletion removes first the
file and then the key (`Scene.Orderly.fits`).

No two callers are under one lock (`Scene.Orderly.exclusive`).  Both hold of every scene that is
reached (`Scene.Reached.orderly`).
-/

namespace Parley.Slots

/-! ## Sessions over time -/

/-- A session is another at a different time: only its turns and its last change may differ. -/
structure Continues (x y : Session) : Prop where
  key : y.key = x.key
  identity : y.identity = x.identity
  title : y.title = x.title
  createdAt : y.createdAt = x.createdAt

theorem Continues.refl (x : Session) : Continues x x := ⟨rfl, rfl, rfl, rfl⟩

theorem Continues.trans {x y z : Session} (h : Continues x y) (h' : Continues y z) :
    Continues x z :=
  ⟨h'.key.trans h.key, h'.identity.trans h.identity, h'.title.trans h.title,
    h'.createdAt.trans h.createdAt⟩

theorem Continues.symm {x y : Session} (h : Continues x y) : Continues y x :=
  ⟨h.key.symm, h.identity.symm, h.title.symm, h.createdAt.symm⟩

theorem Job.continues (now : Timestamp) (x : Session) (job : Job) :
    Continues x (job.apply now x) := by
  cases job <;> exact ⟨rfl, rfl, rfl, rfl⟩

/-- Every slot goes on, and there may be more. -/
def Grows (slots slots' : List Session) : Prop :=
  ∀ (n : Nat) (x : Session), slots[n]? = some x → ∃ x', slots'[n]? = some x' ∧ Continues x x'

theorem Grows.refl (slots : List Session) : Grows slots slots :=
  fun _ x hx => ⟨x, hx, .refl x⟩

theorem Grows.trans {a b c : List Session} (h : Grows a b) (h' : Grows b c) : Grows a c := by
  intro n x hx
  obtain ⟨y, hy, hxy⟩ := h n x hx
  obtain ⟨z, hz, hyz⟩ := h' n y hy
  exact ⟨z, hz, hxy.trans hyz⟩

theorem Grows.exists_mem {slots slots' : List Session} (h : Grows slots slots') {x : Session}
    (hx : x ∈ slots) : ∃ y, y ∈ slots' ∧ Continues x y := by
  obtain ⟨n, hn⟩ := List.mem_iff_getElem?.1 hx
  obtain ⟨y, hy, hxy⟩ := h n x hn
  exact ⟨y, List.mem_of_getElem? hy, hxy⟩

theorem grows_append (slots : List Session) (x : Session) : Grows slots (slots ++ [x]) := by
  intro n y hy
  obtain ⟨hn, -⟩ := List.getElem?_eq_some_iff.1 hy
  exact ⟨y, (List.getElem?_append_left hn).trans hy, .refl y⟩

theorem grows_set {slots : List Session} {n : Nat} {x y : Session} (hx : slots[n]? = some x)
    (h : Continues x y) : Grows slots (slots.set n y) := by
  intro m z hz
  rw [List.getElem?_set]
  split
  case isTrue hmn =>
    subst hmn
    rw [hx] at hz
    cases hz
    obtain ⟨hn, -⟩ := List.getElem?_eq_some_iff.1 hx
    rw [if_pos hn]
    exact ⟨y, rfl, h⟩
  case isFalse => exact ⟨z, hz, .refl z⟩

/-! ## What is returned -/

/-- The deeds of one caller. -/
def deedsOf (k : Nat) (h : History) : List Deed := (h.filter (·.1 = k)).map Prod.snd

/-- A turn as it was added, at its own time or later. -/
structure Stamped (t t' : Turn) : Prop where
  role : t'.role = t.role
  content : t'.content = t.content
  timestamp : t.timestamp.le t'.timestamp

/-- A reply presents a session, as it is at some time. -/
def Wish.Presents (w : Wish) (x : Session) (r : Reply) : Prop :=
  match w.purpose with
  | .default => r = .key (.ok w.key)
  | _ => ∃ y active, Continues x y ∧ r = .summary (.ok (y.summary active))

/-- What calls may meet with. -/
structure Prospect where
  /-- The sessions that there are. -/
  session : Session → Prop
  /-- The keys that identities may have switched in. -/
  switched : Identity → SessionKey → Prop
  /-- How the directory may refuse. -/
  refusal : FileError → Prop

/-- What is done for a wish, and what is returned then. -/
inductive Wish.Settles (W : Prospect) : Wish → List Deed → Reply → Prop where
  /-- The session was made, and is presented. -/
  | made {w : Wish} (now : Timestamp) {r : Reply} (h : w.Presents (w.session now) r) :
    Settles W w [.made (w.session now)] r
  /-- The session that is there is the default session, or it may do as well. -/
  | existing {w : Wish} {x : Session} {r : Reply} (hx : W.session x) (hkey : x.key = w.key)
    (hpurpose : w.purpose = .default ∨ w.purpose = .named w.key true) (h : w.Presents x r) :
    Settles W w [.met w.key] r
  | duplicate {w : Wish} (hpurpose : w.purpose = .named w.key false) :
    Settles W w [.met w.key] (.summary (.error (.duplicateName w.key.text)))
  /-- The next key is tried. -/
  | again {w : Wish} {base : String} {n : Nat} {deeds : List Deed} {r : Reply}
    (hpurpose : w.purpose = .generated base n)
    (h : Settles W { w with purpose := .generated base (n + 1) } deeds r) :
    Settles W w (.met w.key :: deeds) r
  | refused (w : Wish) {e : FileError} (he : W.refusal e) : Settles W w [.refused e] (w.refused e)

/-- What is done of a call that has returned, and what it returned. -/
def Call.Settles (W : Prospect) (deeds : List Deed) (r : Reply) : Call → Prop
  | .create i new => ∃ now, match Wish.of i new now with
    | .error e => deeds = [] ∧ r = .summary (.error e)
    | .ok w => w.Settles W deeds r
  | .resolve i =>
    -- a session is switched in, or else the default session is made or found
    (deeds = [] ∧ ∃ key, W.switched i key ∧ r = .key (.ok key)) ∨
      Wish.Settles W ⟨i, none, .default⟩ deeds r
  | .append key t =>
    (∃ t', Stamped t t' ∧ deeds = [.said key t'] ∧ r = .unit (.ok ())) ∨
    (deeds = [] ∧ r = .unit (.error (.sessionNotFound key.text))) ∨
    ∃ e, W.refusal e ∧ deeds = [.refused e] ∧ r = .unit (.error (.file e))
  | .clear key =>
    (deeds = [.cleared key] ∧ r = .unit (.ok ())) ∨
    (deeds = [] ∧ r = .unit (.error (.sessionNotFound key.text))) ∨
    ∃ e, W.refusal e ∧ deeds = [.refused e] ∧ r = .unit (.error (.file e))
  | .delete i name =>
    let key := Store.nameKey i name.trimBlank
    (i.owns key ∧ deeds = [.unlinked key, .forgotten key] ∧ r = .key (.ok key)) ∨
    (deeds = [] ∧ r = .key (.error (.sessionNotFound name.trimBlank))) ∨
    ∃ e, W.refusal e ∧ deeds = [.refused e] ∧ r = .key (.error (.file e))

variable {slots slots' : List Session} {c : Call} {deeds : List Deed} {r : Reply} {w : Wish}
  {x y : Session} {s s' : Stage} {W W' : Prospect} {O : Identity → SessionKey → Prop}

theorem Wish.Presents.of_continues (h : w.Presents x r) (hxy : Continues x y) :
    w.Presents y r := by
  unfold Presents at h ⊢
  split at h
  · exact h
  · obtain ⟨z, active, hz, hr⟩ := h
    exact ⟨z, active, hxy.symm.trans hz, hr⟩

/-- Who meets with the one may as well, after these deeds, meet with the other. -/
structure Prospect.Within (deeds : List Deed) (W W' : Prospect) : Prop where
  session : ∀ x, W.session x → ∃ y, W'.session y ∧ Continues x y
  switched : ∀ i key, W.switched i key → W'.switched i key
  refusal : ∀ e, .refused e ∈ deeds → W.refusal e → W'.refusal e

theorem Wish.Settles.mono (h : w.Settles W deeds r) (hW : W.Within deeds W') :
    w.Settles W' deeds r := by
  induction h with
  | made now h => exact .made now h
  | existing hx hkey hpurpose h =>
    obtain ⟨y, hy, hxy⟩ := hW.session _ hx
    exact .existing hy (hxy.key.trans hkey) hpurpose (h.of_continues hxy)
  | duplicate hpurpose => exact .duplicate hpurpose
  | again hpurpose _ ih =>
    exact .again hpurpose (ih ⟨hW.session, hW.switched, fun e he =>
      hW.refusal e (List.mem_cons_of_mem _ he)⟩)
  | refused w he => exact .refused w (hW.refusal _ List.mem_cons_self he)

theorem Call.Settles.mono (h : c.Settles W deeds r) (hW : W.Within deeds W') :
    c.Settles W' deeds r := by
  cases c with
  | create i new =>
    obtain ⟨now, h⟩ := h
    refine ⟨now, ?_⟩
    split at h
    · exact h
    · exact h.mono hW
  | resolve i =>
    rcases h with ⟨hdeeds, key, hkey, hr⟩ | h
    · exact .inl ⟨hdeeds, key, hW.switched i key hkey, hr⟩
    · exact .inr (h.mono hW)
  | append | clear | delete =>
    rcases h with h | h | ⟨e, he, rfl, hr⟩
    · exact .inl h
    · exact .inr (.inl h)
    · exact .inr (.inr ⟨e, hW.refusal e List.mem_cons_self he, rfl, hr⟩)

/-! ## Where a caller stands -/

/-- The keys that are wished for are the identity's own. -/
def Wish.IsOwn (w : Wish) : Prop :=
  match w.purpose with
  | .named key _ => w.identity.owns key
  | .generated base _ => ∃ now, base = Store.generatedBase w.identity now
  | .default => True

theorem Wish.IsOwn.owns (h : w.IsOwn) : w.identity.owns w.key := by
  obtain ⟨i, title, purpose⟩ := w
  cases purpose with
  | named key allow => exact h
  | generated base n =>
    obtain ⟨now, hbase⟩ := h
    show i.owns (Store.numbered base n)
    rw [hbase]
    exact owns_numbered i now n
  | default => exact owns_defaultKey i

theorem Wish.isOwn_of {i : Identity} {new : NewSession} {now : Timestamp}
    (h : Wish.of i new now = .ok w) : w.IsOwn := by
  unfold Wish.of at h
  split at h
  · cases h
    exact ⟨now, rfl⟩
  · rename_i name _
    cases hkey : Store.requestedKey i name with
    | error e =>
      rw [hkey] at h
      cases h
    | ok key =>
      rw [hkey] at h
      cases h
      exact owns_requestedKey hkey

/-- Whatever settles the wish settles the call. -/
def Call.Wants (c : Call) (deeds : List Deed) (w : Wish) : Prop :=
  w.IsOwn ∧ ∀ W more r, w.Settles W more r → c.Settles W (deeds ++ more) r

/-- The sessions are those in the slots, and the directory may refuse as it likes. -/
def Prospect.among (slots : List Session) (O : Identity → SessionKey → Prop) : Prospect :=
  ⟨(· ∈ slots), O, fun _ => True⟩

theorem Prospect.among_within (h : Grows slots slots') :
    (among slots O).Within deeds (among slots' O) :=
  ⟨fun _ hx => h.exists_mem hx, fun _ _ h => h, fun _ _ h => h⟩

/-- Whatever presents the session settles the call. -/
def Call.Owes (O : Identity → SessionKey → Prop) (c : Call) (slots : List Session)
    (deeds : List Deed) (w : Wish) (x : Session) : Prop :=
  ∀ slots', Grows slots slots' → ∀ r, w.Presents x r →
    c.Settles (.among slots' O) deeds r

/-- How the deeds of a caller fit the stage of its call, where `O` is what may be switched in. -/
def Stage.Fits (O : Identity → SessionKey → Prop) (slots : List Session) (c : Call)
    (deeds : List Deed) : Stage → Prop
  | start c' => c' = c ∧ deeds = []
  | take _ s | free _ s => s.Fits O slots c deeds
  | draft w => c.Wants deeds w
  | check w x | write w x | place w x =>
    c.Wants deeds w ∧ ∃ now : Timestamp, now.Valid ∧ x = w.session now
  | glance w n => ∃ x y, slots[n]? = some y ∧ Continues x y ∧ w.purpose ≠ .default ∧
      c.Owes O slots deeds w x
  | compare w s => ∃ x y, Continues x y ∧ s = y.summary false ∧ w.purpose ≠ .default ∧
      c.Owes O slots deeds w x
  | consult i => c = .resolve i ∧ deeds = []
  | work n job => deeds = [] ∧ ∃ x, slots[n]? = some x ∧
      match job with
      | .say t => c = .append x.key t
      | .clear => c = .clear x.key
  | seek i name => c = .delete i name ∧ deeds = []
  | unlink i key => ∃ name, c = .delete i name ∧ key = Store.nameKey i name.trimBlank ∧
      i.owns key ∧ deeds = []
  | forget i key => ∃ name, c = .delete i name ∧ key = Store.nameKey i name.trimBlank ∧
      i.owns key ∧ deeds = [.unlinked key]
  | drop i key => ∃ name, c = .delete i name ∧ key = Store.nameKey i name.trimBlank ∧
      i.owns key ∧ deeds = [.unlinked key, .forgotten key]
  | returned r => c.Settles (.among slots O) deeds r

theorem Stage.Fits.mono (h : s.Fits O slots c deeds) (hgrows : Grows slots slots') :
    s.Fits O slots' c deeds := by
  induction s with
  | take l s ih => exact ih h
  | free l s ih => exact ih h
  | glance w n =>
    obtain ⟨x, y, hy, hxy, hpurpose, howes⟩ := h
    obtain ⟨z, hz, hyz⟩ := hgrows n y hy
    exact ⟨x, z, hz, hxy.trans hyz, hpurpose, fun slots'' h => howes _ (hgrows.trans h)⟩
  | compare w s =>
    obtain ⟨x, y, hxy, hs, hpurpose, howes⟩ := h
    exact ⟨x, y, hxy, hs, hpurpose, fun slots'' h => howes _ (hgrows.trans h)⟩
  | work n job =>
    obtain ⟨hdeeds, x, hx, hjob⟩ := h
    obtain ⟨y, hy, hxy⟩ := hgrows n x hx
    refine ⟨hdeeds, y, hy, ?_⟩
    rw [hxy.key]
    exact hjob
  | returned r => exact Call.Settles.mono h (Prospect.among_within hgrows)
  | start | draft | check | write | place | consult | seek | unlink | forget | drop => exact h

/-! ## Steps -/

/-- The keys stand for sessions of that key. -/
def Shared.Indexed (sh : Shared) : Prop :=
  ∀ key n, sh.index.get? key = some n → ∃ x, sh.slots[n]? = some x ∧ x.key = key

variable {now : Timestamp} {sh sh' : Shared} {deed : Option Deed}

theorem Effect.grows (h : Effect now sh s deed sh' s') : Grows sh.slots sh'.slots := by
  cases h with
  | place w x => exact grows_append _ x
  | @work n job x d hx _ => exact grows_set hx (Job.continues now x job)
  | take | free | look | write | notWrite | notWork | unlink | notUnlink | forget | drop
  | notDrop => exact .refl _

/-- Nothing is switched in. -/
theorem Effect.switched (h : Effect now sh s deed sh' s') {i : Identity} {key : SessionKey}
    (hkey : sh'.overrides.get? i = some key) : sh.overrides.get? i = some key := by
  cases h with
  | drop i' key' =>
    dsimp only at hkey
    rw [Table.get?_erase] at hkey
    split at hkey
    · cases hkey
    · exact hkey
  | take | free | look | write | notWrite | place | work | notWork | unlink | notUnlink | forget
  | notDrop => exact hkey

namespace Shared.Indexed

theorem place (h : sh.Indexed) (x : Session) : (sh.place x).Indexed := by
  intro key n hn
  dsimp only [Shared.place] at hn ⊢
  rw [Table.get?_set] at hn
  split at hn
  case isTrue hkey =>
    cases hn
    exact ⟨x, List.getElem?_concat_length, hkey.symm⟩
  case isFalse =>
    obtain ⟨y, hy, hkey⟩ := h key n hn
    obtain ⟨z, hz, hyz⟩ := grows_append sh.slots x n y hy
    exact ⟨z, hz, hyz.key.trans hkey⟩

theorem work (h : sh.Indexed) {n : Nat} (hx : sh.slots[n]? = some x) (hxy : Continues x y)
    (d : Directory) : ({ sh with slots := sh.slots.set n y, disk := d } : Shared).Indexed := by
  intro key m hm
  obtain ⟨z, hz, hkey⟩ := h key m hm
  obtain ⟨z', hz', hzz'⟩ := grows_set hx hxy m z hz
  exact ⟨z', hz', hzz'.key.trans hkey⟩

theorem forget (h : sh.Indexed) (key : SessionKey) :
    ({ sh with index := sh.index.erase key } : Shared).Indexed := by
  intro other n hn
  dsimp only at hn
  rw [Table.get?_erase] at hn
  split at hn
  · cases hn
  · exact h other n hn

theorem of_effect (h : sh.Indexed) (he : Effect now sh s deed sh' s') : sh'.Indexed := by
  cases he with
  | place w x => exact h.place x
  | @work n job x d hx _ => exact h.work hx (Job.continues now x job) d
  | forget i key => exact h.forget key
  | take | free | look | write | notWrite | notWork | unlink | notUnlink | drop | notDrop => exact h

end Shared.Indexed

/-- A session that became visible is presented. -/
theorem Wish.fits_made {n : Nat} (howes : c.Owes O slots deeds w x) (hy : slots[n]? = some y)
    (hxy : Continues x y) : (w.made n).Fits O slots c deeds := by
  obtain ⟨i, title, purpose⟩ := w
  cases purpose with
  | default => exact howes _ (.refl slots) _ rfl
  | named | generated => exact ⟨x, y, hy, hxy, nofun, howes⟩

/-- **A key that is in use is dealt with as the wish has it.** -/
theorem Wish.fits_met {n : Nat} (hwants : c.Wants deeds w) (hx : slots[n]? = some x)
    (hkey : x.key = w.key) : (w.met n).Fits O slots c (deeds ++ [.met w.key]) := by
  obtain ⟨howns, hsettles⟩ := hwants
  have howes (hpurpose : w.purpose = .default ∨ w.purpose = .named w.key true) :
      c.Owes O slots (deeds ++ [.met w.key]) w x := by
    intro slots' hgrows r hr
    obtain ⟨y, hy, hxy⟩ := hgrows n x hx
    exact hsettles _ _ _ (.existing (List.mem_of_getElem? hy) (hxy.key.trans hkey) hpurpose
      (hr.of_continues hxy))
  obtain ⟨i, title, purpose⟩ := w
  cases purpose with
  | default => exact howes (.inl rfl) _ (.refl slots) _ rfl
  | generated base k =>
    refine ⟨howns, fun W more r hr => ?_⟩
    rw [List.append_assoc]
    exact hsettles _ _ _ (.again rfl hr)
  | named key allow =>
    cases allow with
    | true => exact ⟨x, x, hx, .refl x, nofun, howes (.inr rfl)⟩
    | false => exact hsettles _ _ _ (.duplicate rfl)

/-- A call that finds no session says so, and else waits for the slot. -/
theorem fits_attend {key : SessionKey} {job : Job} (hi : sh.Indexed)
    (hjob : match job with
      | .say t => c = .append key t
      | .clear => c = .clear key) : (Stage.attend sh key job).Fits O sh.slots c [] := by
  unfold Stage.attend
  split
  case h_1 =>
    cases job <;> cases hjob <;> exact .inr (.inl ⟨rfl, rfl⟩)
  case h_2 n hn =>
    obtain ⟨x, hx, rfl⟩ := hi key n hn
    exact ⟨rfl, x, hx, hjob⟩

/-- A call that has not begun: a session to be made has its key and name checked, a slot is looked
up, and everything else begins by waiting for a lock. -/
theorem fits_of_begin {c' : Call} (h : (Stage.start c').Fits O sh.slots c deeds) (hi : sh.Indexed)
    (hlook : (Stage.start c').look now sh = some (deed, s')) :
    s'.Fits O sh.slots c (deeds ++ deed.toList) := by
  obtain ⟨rfl, rfl⟩ := h
  cases c' with
  | create i new =>
    simp only [Stage.look] at hlook
    split at hlook
    case h_1 e he =>
      cases hlook
      refine ⟨now, ?_⟩
      rw [he]
      exact ⟨rfl, rfl⟩
    case h_2 w hw =>
      cases hlook
      refine ⟨Wish.isOwn_of hw, fun W more r hr => ⟨now, ?_⟩⟩
      rw [hw]
      exact hr
  | append key t =>
    cases hlook
    exact fits_attend hi rfl
  | clear key =>
    cases hlook
    exact fits_attend hi rfl
  | resolve | delete =>
    cases hlook
    exact ⟨rfl, rfl⟩

/-- What is looked at, and what a call goes on with, fits what it is to do. -/
theorem fits_of_look (h : s.Fits O sh.slots c deeds) (hi : sh.Indexed)
    (ho : ∀ i key, sh.overrides.get? i = some key → O i key) (hnow : now.Valid)
    (hlook : s.look now sh = some (deed, s')) : s'.Fits O sh.slots c (deeds ++ deed.toList) := by
  cases s with
  | start c' => exact fits_of_begin h hi hlook
  | draft w =>
    cases hlook
    rw [Option.toList_none, List.append_nil]
    exact ⟨h, now, hnow, rfl⟩
  | check w x =>
    simp only [Stage.look] at hlook
    split at hlook
    case h_1 n hn =>
      cases hlook
      obtain ⟨y, hy, hkey⟩ := hi _ n hn
      exact Wish.fits_met h.1 hy hkey
    case h_2 =>
      cases hlook
      rw [Option.toList_none, List.append_nil]
      exact h
  | glance w n =>
    obtain ⟨x, y, hy, hxy, hpurpose, howes⟩ := h
    simp only [Stage.look, hy, Option.map_some] at hlook
    cases hlook
    rw [Option.toList_none, List.append_nil]
    exact ⟨x, y, hxy, rfl, hpurpose, howes⟩
  | compare w t =>
    obtain ⟨x, y, hxy, rfl, hpurpose, howes⟩ := h
    cases hlook
    rw [Option.toList_none, List.append_nil]
    refine howes _ (.refl _) _ ?_
    unfold Wish.Presents
    split
    · contradiction
    · exact ⟨y, _, hxy, rfl⟩
  | consult i =>
    obtain ⟨rfl, rfl⟩ := h
    simp only [Stage.look] at hlook
    split at hlook
    case h_1 key hkey =>
      cases hlook
      exact .inl ⟨rfl, key, ho i key (Option.filter_eq_some_iff.1 hkey).1, rfl⟩
    case h_2 =>
      cases hlook
      exact ⟨trivial, fun W more r hr => .inr hr⟩
  | seek i name =>
    obtain ⟨rfl, rfl⟩ := h
    simp only [Stage.look] at hlook
    split at hlook
    case isTrue hfound =>
      cases hlook
      exact ⟨name, rfl, rfl, (Bool.and_eq_true_iff.1 hfound).1, rfl⟩
    case isFalse =>
      cases hlook
      exact .inr (.inl ⟨rfl, rfl⟩)
  | take | free | write | place | work | unlink | forget | drop | returned => cases hlook

theorem stamped_extend (x : Session) (t : Turn) (now : Timestamp) :
    Stamped t (x.extend t now).1 := by
  obtain ⟨stamp, hextend, hle⟩ := x.exists_stamp t now
  rw [hextend]
  exact ⟨rfl, rfl, hle⟩

/-- **Every step of a call fits what it is to do.** -/
theorem fits_of_effect (h : s.Fits O sh.slots c deeds) (hi : sh.Indexed)
    (ho : ∀ i key, sh.overrides.get? i = some key → O i key) (hnow : now.Valid)
    (he : Effect now sh s deed sh' s') : s'.Fits O sh'.slots c (deeds ++ deed.toList) := by
  cases he with
  | take | free =>
    rw [Option.toList_none, List.append_nil]
    exact h
  | look hlook => exact fits_of_look h hi ho hnow hlook
  | write w hwrite =>
    rw [Option.toList_none, List.append_nil]
    exact h
  | notWrite w hwrite => exact h.1.2 _ _ _ (.refused w trivial)
  | place w x =>
    obtain ⟨⟨-, hsettles⟩, now, -, rfl⟩ := h
    refine Wish.fits_made (fun slots' _ r hr => ?_) List.getElem?_concat_length (.refl _)
    exact hsettles _ _ _ (.made now hr)
  | @work n job x d hx hwrite =>
    obtain ⟨rfl, y, hy, hjob⟩ := h
    rw [hx] at hy
    cases hy
    cases job with
    | say t =>
      cases hjob
      exact .inl ⟨_, stamped_extend x t now, rfl, rfl⟩
    | clear =>
      cases hjob
      exact .inl ⟨rfl, rfl⟩
  | @notWork n job x e d hx hwrite =>
    obtain ⟨rfl, y, hy, hjob⟩ := h
    cases job <;> cases hjob <;> exact .inr (.inr ⟨e, trivial, rfl, rfl⟩)
  | unlink i hremove =>
    obtain ⟨name, rfl, hkey, howns, rfl⟩ := h
    exact ⟨name, rfl, hkey, howns, rfl⟩
  | @notUnlink i key e hremove =>
    obtain ⟨name, rfl, -, -, rfl⟩ := h
    exact .inr (.inr ⟨e, trivial, rfl, rfl⟩)
  | forget i key =>
    obtain ⟨name, rfl, hkey, howns, rfl⟩ := h
    exact ⟨name, rfl, hkey, howns, rfl⟩
  | drop i key | notDrop i key =>
    obtain ⟨name, rfl, hkey, howns, rfl⟩ := h
    rw [hkey] at howns ⊢
    exact .inl ⟨howns, rfl, rfl⟩

/-! ## Locks -/

namespace Stage

/-- The lock that a caller has. -/
def lock? : Stage → Option Lock
  | free l _ => some l
  | check .. | write .. | place .. => some .creating
  | glance _ n | work n _ => some (.slot n)
  | compare .. | consult _ | seek .. | unlink .. | forget .. | drop .. => some .overrides
  | start _ | take .. | draft _ | returned _ => none

/-- What is done with a lock is done under it, and what is done after freeing it is not. -/
def Locked : Stage → Prop
  | take l s => s.lock? = some l ∧ s.Locked
  | free _ s => s.lock? = none ∧ s.Locked
  | _ => True

end Stage

theorem Wish.locked_made (w : Wish) (n : Nat) : (w.made n).lock? = none ∧ (w.made n).Locked := by
  unfold Wish.made
  split
  · exact ⟨rfl, trivial⟩
  · exact ⟨rfl, rfl, trivial⟩

theorem Wish.locked_met (w : Wish) (n : Nat) : (w.met n).lock? = none ∧ (w.met n).Locked := by
  unfold Wish.met
  split
  · exact ⟨rfl, trivial⟩
  · exact ⟨rfl, trivial⟩
  · exact ⟨rfl, rfl, trivial⟩
  · exact ⟨rfl, trivial⟩

theorem locked_attend (sh : Shared) (key : SessionKey) (job : Job) :
    (Stage.attend sh key job).lock? = none ∧ (Stage.attend sh key job).Locked := by
  unfold Stage.attend
  split
  · exact ⟨rfl, trivial⟩
  · exact ⟨rfl, rfl, trivial⟩

/-- Looking takes and frees no lock. -/
theorem locked_of_look (h : s.look now sh = some (deed, s')) :
    s'.lock? = s.lock? ∧ s'.Locked := by
  cases s with
  | start c =>
    cases c with
    | create i new =>
      simp only [Stage.look] at h
      split at h <;> cases h <;> exact ⟨rfl, trivial⟩
    | append key t =>
      cases h
      exact locked_attend ..
    | clear key =>
      cases h
      exact locked_attend ..
    | resolve | delete =>
      cases h
      exact ⟨rfl, rfl, trivial⟩
  | draft w =>
    cases h
    exact ⟨rfl, rfl, trivial⟩
  | check w x =>
    simp only [Stage.look] at h
    split at h <;> cases h
    · exact ⟨rfl, Wish.locked_met ..⟩
    · exact ⟨rfl, trivial⟩
  | glance w n =>
    obtain ⟨x, -, heq⟩ := Option.map_eq_some_iff.1 h
    cases heq
    exact ⟨rfl, rfl, rfl, trivial⟩
  | compare w t =>
    cases h
    exact ⟨rfl, rfl, trivial⟩
  | consult i =>
    simp only [Stage.look] at h
    split at h <;> cases h <;> exact ⟨rfl, rfl, trivial⟩
  | seek i name =>
    simp only [Stage.look] at h
    split at h <;> cases h
    · exact ⟨rfl, trivial⟩
    · exact ⟨rfl, rfl, trivial⟩
  | take | free | write | place | work | unlink | forget | drop | returned => cases h

/-- What a step does about locks: it takes one that nobody has, frees one, or does neither. -/
theorem Effect.locks (h : Effect now sh s deed sh' s') (hs : s.Locked) :
    s'.Locked ∧
      ((∃ l, s.lock? = none ∧ s'.lock? = some l ∧ l ∉ sh.held ∧ sh'.held = l :: sh.held) ∨
        (∃ l, s.lock? = some l ∧ s'.lock? = none ∧ sh'.held = sh.held.erase l) ∨
        s'.lock? = s.lock? ∧ sh'.held = sh.held) := by
  cases h with
  | take l s hfree => exact ⟨hs.2, .inl ⟨l, rfl, hs.1, hfree, rfl⟩⟩
  | free l s => exact ⟨hs.2, .inr (.inl ⟨l, rfl, hs.1, rfl⟩)⟩
  | look hlook =>
    obtain ⟨hlock, hlocked⟩ := locked_of_look hlook
    exact ⟨hlocked, .inr (.inr ⟨hlock, rfl⟩)⟩
  | place w x => exact ⟨Wish.locked_made .., .inr (.inr ⟨rfl, rfl⟩)⟩
  | write | unlink | forget => exact ⟨trivial, .inr (.inr ⟨rfl, rfl⟩)⟩
  | notWrite | work | notWork | notUnlink | drop | notDrop =>
    exact ⟨⟨rfl, trivial⟩, .inr (.inr ⟨rfl, rfl⟩)⟩

/-! ## Interleavings -/

theorem deedsOf_append (k j : Nat) (h : History) (deed : Option Deed) :
    deedsOf k (h ++ deed.toList.map (Prod.mk j)) =
      deedsOf k h ++ if k = j then deed.toList else [] := by
  rw [deedsOf, deedsOf, List.filter_append, List.map_append]
  congr 1
  cases deed with
  | none =>
    rw [Option.toList_none, ite_self]
    rfl
  | some d =>
    by_cases hkj : k = j
    · rw [if_pos hkj, Option.toList_some, List.map_singleton, List.filter_singleton,
        decide_eq_true hkj.symm]
      rfl
    · rw [if_neg hkj, Option.toList_some, List.map_singleton, List.filter_singleton,
        decide_eq_false (Ne.symm hkj)]
      rfl

theorem deedsOf_eq_nil {k : Nat} {h : History} (hbelow : ∀ e ∈ h, e.1 < k) : deedsOf k h = [] := by
  have hnone : h.filter (·.1 = k) = [] := by
    rw [List.filter_eq_nil_iff]
    intro e he heq
    exact Nat.lt_irrefl k (of_decide_eq_true heq ▸ hbelow e he)
  rw [deedsOf, hnone]
  rfl

/-- What all callers have, and one more. -/
theorem forall_come {P : Nat → Caller → Prop} {callers : List Caller} {b : Caller}
    (h : ∀ k c, callers[k]? = some c → P k c) (hb : P callers.length b) :
    ∀ k c, (callers ++ [b])[k]? = some c → P k c := by
  intro k c hk
  rcases Nat.lt_trichotomy k callers.length with hlt | rfl | hgt
  · exact h k c ((List.getElem?_append_left hlt).symm.trans hk)
  · rw [List.getElem?_concat_length] at hk
    cases hk
    exact hb
  · rw [List.getElem?_eq_none (by simp; omega)] at hk
    cases hk

/-- What all callers have, and one of them when it has gone on. -/
theorem forall_go {P : Nat → Caller → Prop} {callers : List Caller} {j : Nat} {b : Caller}
    (h : ∀ k c, callers[k]? = some c → k ≠ j → P k c) (hb : P j b) :
    ∀ k c, (callers.set j b)[k]? = some c → P k c := by
  intro k c hk
  by_cases hkj : j = k
  · subst hkj
    rw [List.getElem?_set_self'] at hk
    obtain ⟨-, -, rfl⟩ := Option.map_eq_some_iff.1 hk
    exact hb
  · rw [List.getElem?_set_ne hkj] at hk
    exact h k c hk (Ne.symm hkj)

/-- The callers of a scene stand where their deeds have brought them, each alone under its lock, and
nothing but `O` is switched in. -/
structure Scene.Orderly (O : Identity → SessionKey → Prop) (sc : Scene) : Prop where
  indexed : sc.shared.Indexed
  switched : ∀ i key, sc.shared.overrides.get? i = some key → O i key
  fits : ∀ (k : Nat) (c : Caller), sc.callers[k]? = some c →
    c.stage.Fits O sc.shared.slots c.call (deedsOf k sc.history)
  locked : ∀ (k : Nat) (c : Caller), sc.callers[k]? = some c →
    c.stage.Locked ∧ ∀ l, c.stage.lock? = some l → l ∈ sc.shared.held
  exclusive : ∀ (j k : Nat) (b c : Caller) (l : Lock), sc.callers[j]? = some b →
    sc.callers[k]? = some c → b.stage.lock? = some l → c.stage.lock? = some l → j = k
  below : ∀ e ∈ sc.history, e.1 < sc.callers.length

namespace Scene.Orderly

variable {callers : List Caller} {h : History} {k : Nat} {b : Caller}

theorem start (hi : sh.Indexed) :
    Orderly (fun i key => sh.overrides.get? i = some key) { shared := sh } := by
  have hnone (k : Nat) (c : Caller) (h : ([] : List Caller)[k]? = some c) : False := by
    rw [List.getElem?_nil] at h
    cases h
  exact ⟨hi, fun i key h => h, fun k c h => (hnone k c h).elim, fun k c h => (hnone k c h).elim,
    fun j _ b _ _ h _ _ _ => (hnone j b h).elim, nofun⟩

theorem come (ho : Orderly O ⟨sh, callers, h⟩) (c : Call) :
    Orderly O ⟨sh, callers ++ [⟨c, .start c⟩], h⟩ where
  indexed := ho.indexed
  switched := ho.switched
  fits := forall_come ho.fits ⟨rfl, deedsOf_eq_nil ho.below⟩
  locked := forall_come ho.locked ⟨trivial, nofun⟩
  exclusive := by
    refine fun j k a b l hj hk ha hb => ?_
    have hold := forall_come (P := fun k b => b.stage.lock? = some l → callers[k]? = some b)
      (b := ⟨c, .start c⟩) (fun k b hk _ => hk) nofun
    exact ho.exclusive j k a b l (hold j a hj ha) (hold k b hk hb) ha hb
  below e he := by
    rw [List.length_append]
    exact Nat.lt_add_right 1 (ho.below e he)

/-- What a caller has, it keeps when another takes a step: the lock that is freed is not its own. -/
theorem held_of_other (ho : Orderly O ⟨sh, callers, h⟩) (hk : callers[k]? = some b)
    (he : Effect now sh b.stage deed sh' s') {j : Nat} {c : Caller} {l : Lock}
    (hj : callers[j]? = some c) (hne : j ≠ k) (hl : c.stage.lock? = some l) : l ∈ sh'.held := by
  have hmem := (ho.locked j c hj).2 l hl
  rcases (he.locks (ho.locked k b hk).1).2 with ⟨l', -, -, -, hnew⟩ | ⟨l', hhad, -, hnew⟩ |
    ⟨-, hnew⟩
  · rw [hnew]
    exact List.mem_cons_of_mem _ hmem
  · rw [hnew]
    refine (List.mem_erase_of_ne ?_).2 hmem
    rintro rfl
    exact hne (ho.exclusive j k c b _ hj hk hl hhad)
  · rw [hnew]
    exact hmem

/-- What a caller has after a step, it took from nobody. -/
theorem lock?_ne_of_other (ho : Orderly O ⟨sh, callers, h⟩) (hk : callers[k]? = some b)
    (he : Effect now sh b.stage deed sh' s') {j : Nat} {c : Caller} {l : Lock}
    (hj : callers[j]? = some c) (hne : j ≠ k) (hl : c.stage.lock? = some l) :
    s'.lock? ≠ some l := by
  intro hl'
  rcases (he.locks (ho.locked k b hk).1).2 with ⟨l', -, hhas, hfree, -⟩ | ⟨l', -, hhas, -⟩ |
    ⟨hsame, -⟩
  · rw [hhas] at hl'
    cases hl'
    exact hfree ((ho.locked j c hj).2 l hl)
  · rw [hhas] at hl'
    cases hl'
  · exact hne (ho.exclusive j k c b l hj hk hl (hsame ▸ hl'))

/-- A caller that takes a step is under the locks that it then has. -/
theorem held_of_step (ho : Orderly O ⟨sh, callers, h⟩) (hk : callers[k]? = some b)
    (he : Effect now sh b.stage deed sh' s') {l : Lock} (hl : s'.lock? = some l) :
    l ∈ sh'.held := by
  rcases (he.locks (ho.locked k b hk).1).2 with ⟨l', -, hhas, -, hnew⟩ | ⟨l', -, hhas, -⟩ |
    ⟨hsame, hnew⟩
  · rw [hhas] at hl
    cases hl
    rw [hnew]
    exact List.mem_cons_self
  · rw [hhas] at hl
    cases hl
  · rw [hnew]
    exact (ho.locked k b hk).2 l (hsame ▸ hl)

/-- **The scene stays in order when a caller takes a step.** -/
theorem go (ho : Orderly O ⟨sh, callers, h⟩) (hnow : now.Valid) (hk : callers[k]? = some b)
    (he : Effect now sh b.stage deed sh' s') :
    Orderly O ⟨sh', callers.set k ⟨b.call, s'⟩, h ++ deed.toList.map (Prod.mk k)⟩ where
  indexed := ho.indexed.of_effect he
  switched i key hkey := ho.switched i key (he.switched hkey)
  fits := by
    refine forall_go (fun j c hj hne => ?_) ?_
    · rw [deedsOf_append, if_neg hne, List.append_nil]
      exact (ho.fits j c hj).mono he.grows
    · rw [deedsOf_append, if_pos rfl]
      exact fits_of_effect (ho.fits k b hk) ho.indexed ho.switched hnow he
  locked := forall_go
    (fun j c hj hne => ⟨(ho.locked j c hj).1, fun _ hl => ho.held_of_other hk he hj hne hl⟩)
    ⟨(he.locks (ho.locked k b hk).1).1, fun _ hl => ho.held_of_step hk he hl⟩
  exclusive := by
    intro i j a c l hi hj ha hc
    have hold := forall_go (P := fun i a => a.stage.lock? = some l →
        (i ≠ k ∧ callers[i]? = some a) ∨ i = k ∧ s'.lock? = some l) (b := ⟨b.call, s'⟩)
      (fun i a hi hne _ => .inl ⟨hne, hi⟩) (fun ha => .inr ⟨rfl, ha⟩)
    rcases hold i a hi ha with ⟨hik, hi'⟩ | ⟨rfl, hs⟩ <;>
      rcases hold j c hj hc with ⟨hjk, hj'⟩ | ⟨rfl, hs'⟩
    · exact ho.exclusive i j a c l hi' hj' ha hc
    · exact absurd hs' (ho.lock?_ne_of_other hk he hi' hik ha)
    · exact absurd hs (ho.lock?_ne_of_other hk he hj' hjk hc)
    · rfl
  below e hmem := by
    rw [List.length_set]
    rcases List.mem_append.1 hmem with hold | hnew
    · exact ho.below e hold
    · obtain ⟨d, -, rfl⟩ := List.mem_map.1 hnew
      exact (List.getElem?_eq_some_iff.1 hk).1

end Scene.Orderly

/-- **Whatever callers do and in whatever order, the scene is in order.** -/
theorem Scene.Reached.orderly {P : Call → Prop} {sc : Scene} (h : sc.Reached P sh)
    (hi : sh.Indexed) : sc.Orderly fun i key => sh.overrides.get? i = some key := by
  induction h with
  | start => exact .start hi
  | come _ c _ ih => exact ih.come c
  | go _ now hnow hk hstep ih => exact ih.go hnow hk (effect_of_step hstep)

/-- All callers do what they may. -/
theorem Scene.Reached.allowed {P : Call → Prop} {sc : Scene} (h : sc.Reached P sh) :
    ∀ (k : Nat) (b : Caller), sc.callers[k]? = some b → P b.call := by
  induction h with
  | start =>
    intro k b hk
    simp at hk
  | come _ c hc ih => exact forall_come ih hc
  | @go sh sh' callers h k c _ s' _ _ _ hk _ ih =>
    exact forall_go (fun j b hj _ => ih j b hj) (ih k c hk)

theorem Caller.stage_of_reply? {b : Caller} (h : b.reply? = some r) : b.stage = .returned r := by
  unfold Caller.reply? at h
  split at h
  · cases h
    assumption
  · cases h

end Parley.Slots
