import Parley.Proofs.Session.Durable
import Parley.Proofs.Session.Resistance
import Parley.Proofs.Session.Undisturbed
import Parley.Proofs.Session.Writers

/-!
# Sessions that are deleted while others write to them

A deletion removes the file of a session and then its key, under the lock of the overrides.  It
does not wait for the lock of the session's slot.  So a caller that looked the slot up before goes
on with the session in it, which is no longer under any key; and since the file is missing when a
turn is added, it is written anew, as a whole.

The session therefore stays deleted exactly if its removal was the last thing that was done at its
file, and no other file described it when the store was opened (`Scene.Reached.deleted_iff`).
Otherwise it is there again as soon as the directory is opened (`lone.back_after_deletion`).
-/

namespace Parley.Slots

open SessionFile Directory

/-- The calls that are about one session and create none. -/
def Call.Concerns (key : SessionKey) : Call → Prop
  | append other _ | clear other => other = key
  | delete i name => Store.nameKey i name.trimBlank = key
  | create .. | resolve _ => False

/-! ## What was done at a file -/

/-- A deed at the file of a key. -/
def Deed.touches (key : SessionKey) : Deed → Bool
  | made x => x.key = key
  | said other _ | cleared other | unlinked other => other = key
  | met _ | forgotten _ | refused _ => false

/-- What was done at the file of a key. -/
def touching (key : SessionKey) (h : History) : History := h.filter (·.2.touches key)

/-- The last thing that was done at the file of a key was to remove it. -/
def Removed (key : SessionKey) (h : History) : Prop :=
  ∃ k, (touching key h).getLast? = some (k, .unlinked key)

variable {key : SessionKey} {h : History} {k n : Nat} {x : Session} {deed : Option Deed} {a : Deed}
  {now : Timestamp} {d₀ d₁ d d' : Directory}

theorem touching_concat (key : SessionKey) (h : History) (k : Nat) (a : Deed) :
    touching key (h ++ [(k, a)]) =
      touching key h ++ if a.touches key then [(k, a)] else [] := by
  rw [touching, List.filter_append, List.filter_singleton, Bool.cond_eq_ite]
  rfl

theorem touching_of_untouched (h : History) (k : Nat) (huntouched : ∀ a ∈ deed, ¬ a.touches key) :
    touching key (h ++ deed.toList.map (Prod.mk k)) = touching key h := by
  cases deed with
  | none => simp
  | some a =>
    show touching key (h ++ [(k, a)]) = _
    rw [touching_concat, if_neg (huntouched a rfl), List.append_nil]

/-- What is done last is done last. -/
theorem removed_concat_iff (h : History) (k : Nat) (ha : a.touches key) :
    Removed key (h ++ [(k, a)]) ↔ a = .unlinked key := by
  rw [Removed, touching_concat, if_pos ha, List.getLast?_concat]
  constructor
  · rintro ⟨j, hlast⟩
    cases hlast
    rfl
  · rintro rfl
    exact ⟨k, rfl⟩

/-! ## The fate of a file -/

/-- From one directory to the other only the file of a key changed, among the session files.  It is
missing if its removal was the last thing that was done at it, and there if something else was. -/
structure Fate (key : SessionKey) (d₀ : Directory) (h : History) (d : Directory) : Prop where
  refusal : d.refusal = d₀.refusal
  others : ∀ name, isSessionFile name → name ≠ fileName key →
    d.entries.get? name = d₀.entries.get? name
  missing_iff : touching key h ≠ [] → (d.entries.get? (fileName key) = none ↔ Removed key h)

namespace Fate

theorem start (key : SessionKey) (d : Directory) : Fate key d [] d :=
  ⟨rfl, fun _ _ _ => rfl, fun hne => absurd rfl hne⟩

/-- Nothing was done at a session file. -/
theorem still (hf : Fate key d₀ h d) (k : Nat) (hnamed : key.text ≠ "")
    (hrefusal : d'.refusal = d.refusal)
    (hfiles : ∀ name, isSessionFile name → d'.entries.get? name = d.entries.get? name)
    (huntouched : ∀ a ∈ deed, ¬ a.touches key) :
    Fate key d₀ (h ++ deed.toList.map (Prod.mk k)) d' := by
  have hsame := touching_of_untouched h k huntouched
  refine ⟨hrefusal.trans hf.refusal, fun name hname hne => ?_, fun htouching => ?_⟩
  · rw [hfiles name hname]
    exact hf.others name hname hne
  · rw [hsame] at htouching
    rw [hfiles _ (isSessionFile_fileName hnamed), Removed, hsame]
    exact hf.missing_iff htouching

/-- **Something was done at the file of the key.** -/
theorem touch (hf : Fate key d₀ h d) (k : Nat) (hrefusal : d'.refusal = d.refusal)
    (htouches : Touches (fileName key) d d') (ha : a.touches key)
    (hfile : d'.entries.get? (fileName key) = none ↔ a = .unlinked key) :
    Fate key d₀ (h ++ [(k, a)]) d' := by
  refine ⟨hrefusal.trans hf.refusal, fun name hname hne => ?_, fun _ => ?_⟩
  · rw [htouches.others name (.inl hname) hne]
    exact hf.others name hname hne
  · rw [hfile, removed_concat_iff h k ha]

end Fate

theorem refusal_writeSession (d : Directory) (x : Session) :
    (d.writeSession x).2.refusal = d.refusal :=
  (alike_replace d _ _).refusal.symm

/-- A job does not change what the system refuses. -/
theorem Job.refusal_write {job : Job} {result : Except FileError Unit}
    (hwrite : job.write now x d = (result, d')) : d'.refusal = d.refusal := by
  cases job with
  | say t =>
    rw [Job.write, recordTurn] at hwrite
    split at hwrite
    case h_1 happend =>
      cases hwrite
      exact (alike_append happend).refusal.symm
    case h_2 =>
      have hsame := refusal_writeSession d (x.extend t now).2
      rw [hwrite] at hsame
      exact hsame
    case h_3 =>
      cases hwrite
      rfl
  | clear =>
    have hsame := refusal_writeSession d (Job.clear.apply now x)
    rw [Job.write] at hwrite
    rw [hwrite] at hsame
    exact hsame

/-- A job that was done leaves a file. -/
theorem Job.get?_write {job : Job} (hnamed : x.key.text ≠ "")
    (hwrite : job.write now x d = (.ok (), d')) :
    d'.entries.get? (fileName x.key) ≠ none := by
  cases job with
  | say t =>
    obtain ⟨-, ⟨before, -, hadded⟩ | hwhole⟩ :=
      recordTurn_ok (s := (x.extend t now).2) hnamed hwrite
    · exact Option.ne_none_iff_exists'.2 ⟨_, hadded⟩
    · exact Option.ne_none_iff_exists'.2 ⟨_, hwhole⟩
  | clear =>
    obtain ⟨-, hwhole⟩ := replace_ok (counts_fileName hnamed) hwrite
    exact Option.ne_none_iff_exists'.2 ⟨_, hwhole⟩

/-! ## Steps -/

variable {sh sh' : Shared} {s s' : Stage} {c : Call} {deeds : List Deed} {w : Wish}
  {O : Identity → SessionKey → Prop}

/-- A call that creates no session makes none. -/
theorem Call.Settles.not_made {W : Prospect} {r : Reply} (hsettles : c.Settles W deeds r)
    (hc : c.Concerns key) (x : Session) : .made x ∉ deeds := by
  intro hmade
  cases c with
  | create | resolve => exact hc
  | append other t =>
    rcases hsettles with ⟨t', -, rfl, -⟩ | ⟨rfl, -⟩ | ⟨e, -, rfl, -⟩ <;> simp at hmade
  | clear other =>
    rcases hsettles with ⟨rfl, -⟩ | ⟨rfl, -⟩ | ⟨e, -, rfl, -⟩ <;> simp at hmade
  | delete i name =>
    rcases hsettles with ⟨-, rfl, -⟩ | ⟨rfl, -⟩ | ⟨e, -, rfl, -⟩ <;> simp at hmade

/-- It wants to make none. -/
theorem Call.Wants.not_concerns (hwants : c.Wants deeds w) : ¬ c.Concerns key := by
  intro hc
  have hmade (now : Timestamp) : ∃ r, w.Presents (w.session now) r := by
    unfold Wish.Presents
    split
    · exact ⟨_, rfl⟩
    · exact ⟨_, w.session now, false, .refl _, rfl⟩
  obtain ⟨r, hr⟩ := hmade ⟨0, 0⟩
  have hsettles := hwants.2 ⟨fun _ => False, fun _ _ => False, fun _ => False⟩ _ r (.made _ hr)
  exact hsettles.not_made hc _ (List.mem_append_right _ List.mem_cons_self)

/-- Who works on a session is about that session. -/
theorem Stage.Fits.key_of_work {job : Job} (hfits : (Stage.work n job).Fits O sh.slots c deeds)
    (hc : c.Concerns key) (hx : sh.slots[n]? = some x) : x.key = key := by
  obtain ⟨-, y, hy, hcall⟩ := hfits
  cases hx.symm.trans hy
  cases job <;> cases hcall <;> exact hc

/-- **Every step leaves the file as the deeds say.** -/
theorem Fate.of_effect (hf : Fate key d₀ h sh.disk) (hnamed : key.text ≠ "")
    (hhonest : d₀.refusal (.remove (fileName key)) ≠ some .notFound)
    (hfits : s.Fits O sh.slots c deeds) (hc : c.Concerns key)
    (he : Effect now sh s deed sh' s') (k : Nat) :
    Fate key d₀ (h ++ deed.toList.map (Prod.mk k)) sh'.disk := by
  cases he with
  | take | free | notDrop => exact hf.still k hnamed rfl (fun _ _ => rfl) nofun
  | look hlook =>
    refine hf.still k hnamed rfl (fun _ _ => rfl) fun a ha => ?_
    obtain rfl | ⟨other, rfl⟩ := deed_of_look hlook
    · cases ha
    · cases ha
      exact Bool.false_ne_true
  | write | notWrite | place => exact absurd hc hfits.1.not_concerns
  | @work n job x d hx hwrite =>
    have hkey := hfits.key_of_work hc hx
    rw [← hkey] at hnamed
    have htouches := Job.touches hnamed hwrite
    have hfile := Job.get?_write hnamed hwrite
    rw [hkey] at htouches hfile
    refine hf.touch k (Job.refusal_write hwrite) htouches ?_ (iff_of_false hfile ?_)
    · cases job <;> exact decide_eq_true hkey
    · cases job <;> nofun
  | @notWork n job x e d hx hwrite =>
    have hkey := hfits.key_of_work hc hx
    rw [← hkey] at hnamed
    have hfiles {name : String} (hname : isSessionFile name) :=
      Job.get?_of_error hnamed hwrite (.inl hname)
    rw [hkey] at hnamed
    refine hf.still k hnamed (Job.refusal_write hwrite) (fun _ => hfiles) fun a ha => ?_
    cases ha
    exact Bool.false_ne_true
  | @unlink i other d hremove =>
    obtain ⟨name, rfl, hkey, -⟩ := hfits
    cases hkey.trans hc
    rw [← hf.refusal] at hhonest
    obtain ⟨htouches, hmissing⟩ := removeSession_ok hhonest hremove
    refine hf.touch k (refusal_removeSession hremove) htouches (decide_eq_true rfl) ?_
    exact iff_of_true hmissing rfl
  | notUnlink | forget =>
    refine hf.still k hnamed rfl (fun _ _ => rfl) fun a ha => ?_
    cases ha
    exact Bool.false_ne_true
  | drop i other =>
    have htouches : Touches overridesName sh.disk
        (sh.disk.writeOverrides (sh.overrides.erase i)).2 := by
      cases hresult : sh.disk.writeOverrides (sh.overrides.erase i) with
      | mk result d =>
        cases result with
        | ok => exact (replace_ok counts_overridesName hresult).1
        | error e => exact (replace_error counts_overridesName hresult).1
    refine hf.still k hnamed (alike_replace _ _ _).refusal.symm (fun name hname => ?_) nofun
    refine htouches.others name (.inl hname) ?_
    rintro rfl
    rw [not_isSessionFile_overridesName] at hname
    cases hname

/-! ## Interleavings -/

/-- A directory without overrides opens. -/
theorem openAt_of_no_overrides (hnone : d.entries.get? overridesName = none) :
    Store.openAt d = (.ok ⟨Store.loadSessions d, d.overrides, some d⟩, d) := by
  refine Store.openAt_of_sound fun i other hother => ?_
  rw [Directory.overrides, text?, hnone] at hother
  simp at hother

namespace Scene.Reached

variable {sc : Scene}

/-- **Whatever is done with a session, and in whatever order**, its file is as the deeds say. -/
theorem fate (hr : sc.Reached (Call.Concerns key) sh) (hi : sh.Indexed) (hnamed : key.text ≠ "")
    (hhonest : sh.disk.refusal (.remove (fileName key)) ≠ some .notFound) :
    Fate key sh.disk sc.history sc.shared.disk := by
  induction hr with
  | start => exact .start key _
  | come _ c _ ih => exact ih
  | @go sh' sh'' callers h k b deed s' hreached now hnow hk hstep ih =>
    have ho := hreached.orderly hi
    exact ih.of_effect hnamed hhonest (ho.fits k b hk) (hreached.allowed k b hk)
      (effect_of_step hstep) k

/-- A deletion that was acknowledged has removed the file. -/
theorem unlinked_of_delete (hr : sc.Reached (Call.Concerns key) sh) (hi : sh.Indexed) {b : Caller}
    (hb : b ∈ sc.callers) {i : Identity} {name : String} (hcall : b.call = .delete i name)
    (hreply : b.reply? = some (.key (.ok key))) :
    i.owns key ∧ ∃ k, (k, .unlinked key) ∈ sc.history := by
  obtain ⟨k, hk⟩ := List.mem_iff_getElem?.1 hb
  have hfits := (hr.orderly hi).fits k b hk
  rw [Caller.stage_of_reply? hreply, hcall] at hfits
  rcases hfits with ⟨howns, hdeeds, hanswer⟩ | ⟨-, hnot⟩ | ⟨e, -, -, hnot⟩
  · simp only [Reply.key.injEq, Except.ok.injEq] at hanswer
    rw [← hanswer] at howns hdeeds
    refine ⟨howns, k, mem_of_mem_deedsOf ?_⟩
    rw [hdeeds]
    exact List.mem_cons_self
  · cases hnot
  · cases hnot

/-- **When a deleted session stays deleted.**  Let callers add turns to a session, clear it and
delete it, in any order of their steps, and let a deletion have been acknowledged.  The session has
no file, and is not there when the directory is opened again, exactly if its removal was the last
thing that was done at its file, and no other file described it when the store was opened. -/
theorem deleted_iff {s₀ s : Store} (hopen : Store.openAt d₀ = (.ok s₀, d₁))
    (hr : sc.Reached (Call.Concerns key) (.opened d₀.sessions s₀.overrides d₁))
    (hhonest : d₁.refusal (.remove (fileName key)) ≠ some .notFound) {b : Caller}
    (hb : b ∈ sc.callers) {i : Identity} {name : String} (hcall : b.call = .delete i name)
    (hreply : b.reply? = some (.key (.ok key)))
    (hreopen : Store.openAt sc.shared.disk = (.ok s, d)) :
    (sc.shared.disk.entries.get? (fileName key) = none ∧ ¬ s.sessions.contains key) ↔
      Removed key sc.history ∧
        ∀ name y, d₀.Holds name y → y.key = key → name = fileName key := by
  have hshows := shows_opened hopen
  have hdisk : (Shared.opened d₀.sessions s₀.overrides d₁).disk = d₁ := by
    have hsame : s₀.disk = some d₁ := by rw [(Store.openAt_ok hopen).1]
    exact Option.some_inj.1 (hshows.disk.symm.trans hsame)
  obtain ⟨howns, k, hunlinked⟩ := hr.unlinked_of_delete hshows.indexed hb hcall hreply
  have hnamed := text_ne_of_owns howns
  rw [← hdisk] at hhonest
  have hf := hr.fate hshows.indexed hnamed hhonest
  rw [hdisk] at hf
  have htouching : touching key sc.history ≠ [] := by
    refine List.ne_nil_of_mem (a := (k, .unlinked key)) (List.mem_filter.2 ⟨hunlinked, ?_⟩)
    exact decide_eq_true rfl
  rw [hf.missing_iff htouching, (Store.openAt_ok hreopen).1]
  dsimp only
  refine and_congr_right fun hremoved => ?_
  have hmissing := (hf.missing_iff htouching).2 hremoved
  obtain ⟨hkept, -⟩ := Store.openAt_keeps hopen
  -- the other files are as they were
  have hother {name : String} {y : Session} (hne : name ≠ fileName key) :
      sc.shared.disk.Holds name y ↔ d₀.Holds name y := by
    constructor
    · rintro ⟨hname, hread⟩
      have hsame := (hf.others name hname hne).trans (hkept name hname)
      exact (holds_congr hsame).1 ⟨hname, hread⟩
    · rintro ⟨hname, hread⟩
      have hsame := (hf.others name hname hne).trans (hkept name hname)
      exact (holds_congr hsame).2 ⟨hname, hread⟩
  have hnot (y : Session) : ¬ sc.shared.disk.Holds (fileName key) y := by
    rintro ⟨-, hread⟩
    rw [text?, hmissing] at hread
    cases hread
  rw [contains_loadSessions_iff]
  constructor
  · intro hgone name y hy hkey
    by_contra hne
    exact hgone ⟨name, y, (hother hne).2 hy, hkey⟩
  · rintro honly ⟨name, y, hy, hkey⟩
    by_cases hne : name = fileName key
    · rw [hne] at hy
      exact hnot y hy
    · exact hne (honly name y ((hother hne).1 hy) hkey)

end Scene.Reached

/-! ## One session, a turn and a deletion -/

/-- The only session of a directory. -/
def lone : Session := .new ⟨"cli:local"⟩ ⟨"cli", "local"⟩ none ⟨1709294400, 0⟩

/-- Its directory. -/
def lone.directory : Directory := ofTexts [(fileName lone.key, text lone)]

/-- One caller adds a turn to it and one deletes it, in the order of a plan. -/
def lone.play (plan : List Nat) : Scene :=
  plan.foldl (Scene.turn lone.createdAt) (.of (.opened [lone] .empty lone.directory)
    [.append lone.key (.user "hi" lone.createdAt), .delete lone.identity "cli:local"])

/-- A file that has what is written of a session holds that. -/
theorem holds_of_text {name : String} (hname : isSessionFile name)
    (hfile : d.entries.get? name = some (.file (text x).toUTF8)) (hx : x.Storable) :
    d.Holds name (assemble x x.transcript) := by
  refine ⟨hname, ?_⟩
  rw [text?_of_get? hfile, Option.bind_some, read?_text hx]

theorem lone.exists_opened (plan : List Nat) :
    ∃ s₀, Store.openAt lone.directory = (.ok s₀, lone.directory) ∧
      (lone.play plan).Reached (Call.Concerns lone.key)
        (.opened lone.directory.sessions s₀.overrides lone.directory) := by
  have hnow : lone.createdAt.Valid := ⟨by decide, by decide⟩
  have hread : read? (text lone) = some lone := read?_text ⟨hnow, hnow, nofun⟩
  have hdelete : Store.nameKey lone.identity "cli:local".trimBlank = lone.key := by decide +kernel
  refine ⟨_, Store.openAt_ofTexts (text lone) (by decide), ?_⟩
  rw [lone.directory, Store.sessions_ofTexts (isSessionFile_fileName (by decide)) hread]
  refine (Scene.reached_of _ ?_).play hnow plan
  simp only [List.forall_mem_cons]
  exact ⟨rfl, hdelete, nofun⟩

/-- The turn is added and then the session is deleted, and it stays deleted. -/
theorem lone.deleted_after_append :
    let sc := lone.play [0, 0, 0, 0, 1, 1, 1, 1, 1, 1, 1]
    sc.callers.map Caller.reply? = [some (.unit (.ok ())), some (.key (.ok lone.key))] ∧
      ∃ s₀ s, Store.openAt lone.directory = (.ok s₀, lone.directory) ∧
        sc.Reached (Call.Concerns lone.key)
          (.opened lone.directory.sessions s₀.overrides lone.directory) ∧
        Store.openAt sc.shared.disk = (.ok s, sc.shared.disk) ∧
        sc.shared.disk.entries.get? (fileName lone.key) = none ∧
        ¬ s.sessions.contains lone.key := by
  have hb : (lone.play [0, 0, 0, 0, 1, 1, 1, 1, 1, 1, 1]).callers[1]? =
    some ⟨.delete lone.identity "cli:local", .returned (.key (.ok lone.key))⟩ := rfl
  have hremoved : Removed lone.key (lone.play [0, 0, 0, 0, 1, 1, 1, 1, 1, 1, 1]).history := ⟨1, rfl⟩
  obtain ⟨s₀, hopen, hr⟩ := lone.exists_opened [0, 0, 0, 0, 1, 1, 1, 1, 1, 1, 1]
  have hreopen := openAt_of_no_overrides
    (d := (lone.play [0, 0, 0, 0, 1, 1, 1, 1, 1, 1, 1]).shared.disk) rfl
  obtain ⟨hmissing, hgone⟩ := (Scene.Reached.deleted_iff hopen hr nofun (List.mem_of_getElem? hb)
    rfl rfl hreopen).2 ⟨hremoved, fun name y hy _ => Store.eq_of_holds_ofTexts hy⟩
  exact ⟨rfl, s₀, _, hopen, hr, hreopen, hmissing, hgone⟩

/-- **A deleted session is back**: a caller looks for its slot, then it is deleted, and then the
caller adds its turn, which writes the file anew.  Both calls succeed. -/
theorem lone.back_after_deletion :
    let sc := lone.play [0, 1, 1, 1, 1, 1, 1, 1, 0, 0, 0]
    sc.callers.map Caller.reply? = [some (.unit (.ok ())), some (.key (.ok lone.key))] ∧
      ∃ s₀ s, Store.openAt lone.directory = (.ok s₀, lone.directory) ∧
        sc.Reached (Call.Concerns lone.key)
          (.opened lone.directory.sessions s₀.overrides lone.directory) ∧
        Store.openAt sc.shared.disk = (.ok s, sc.shared.disk) ∧
        sc.shared.disk.entries.get? (fileName lone.key) ≠ none ∧
        s.sessions.contains lone.key := by
  have hfile : (lone.play [0, 1, 1, 1, 1, 1, 1, 1, 0, 0, 0]).shared.disk.entries.get?
      (fileName lone.key) =
    some (.file (text (lone.extend (.user "hi" lone.createdAt) lone.createdAt).2).toUTF8) := rfl
  obtain ⟨s₀, hopen, hr⟩ := lone.exists_opened [0, 1, 1, 1, 1, 1, 1, 1, 0, 0, 0]
  have hreopen := openAt_of_no_overrides
    (d := (lone.play [0, 1, 1, 1, 1, 1, 1, 1, 0, 0, 0]).shared.disk) rfl
  have hnow : lone.createdAt.Valid := ⟨by decide, by decide⟩
  have hstorable : (lone.extend (.user "hi" lone.createdAt) lone.createdAt).2.Storable := by
    refine ⟨hnow, hnow, fun t ht => ?_⟩
    rw [List.mem_singleton.1 ht]
    have hempty : ∀ u ∈ lone.transcript, u.Storable := List.forall_mem_nil _
    have hturn : (Turn.user "hi" lone.createdAt).Storable := ⟨trivial, hnow⟩
    exact storable_extend hempty hturn lone.createdAt
  have hholds := holds_of_text (isSessionFile_fileName (by decide)) hfile hstorable
  refine ⟨rfl, s₀, _, hopen, hr, hreopen, ?_, ?_⟩
  · rw [hfile]
    exact Option.some_ne_none _
  · exact contains_loadSessions_iff.2 ⟨fileName lone.key, _, hholds, rfl⟩

end Parley.Slots
