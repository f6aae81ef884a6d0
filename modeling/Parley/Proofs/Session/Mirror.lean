import Parley.Proofs.Session.Content
import Parley.Proofs.Session.Overrides
import Parley.Proofs.Time.Order

/-!
# A directory that mirrors a store

A directory *mirrors* the sessions and overrides of a store (`Mirrors`) if the file of every
session says what the session is, if there is no other session file, and if the file of the
overrides lists the overrides.  Sessions whose files were taken away are set apart as `gone`.

The description in a file need not be the latest: it may name an earlier time of the last change,
as long as the last turn makes up for it (`Says`).  So a turn is recorded by its line
(`Says.extend`), and every other change by writing the file anew.
-/

namespace Parley

open SessionFile Directory

/-! ## What one file says -/

/-- The content is that of the session, but for the time of the last change in its description. -/
def Says (content : ByteArray) (x : Session) : Prop :=
  ∃ u : Timestamp, u.Valid ∧ content = (text { x with updatedAt := u }).toUTF8 ∧
    assemble { x with updatedAt := u } x.transcript = x

theorem says_text {x : Session} (hvalid : x.updatedAt.Valid)
    (hassemble : assemble x x.transcript = x) : Says (text x).toUTF8 x :=
  ⟨x.updatedAt, hvalid, rfl, hassemble⟩

/-- **A file that says what a session is, is read as that session.** -/
theorem Says.read? {content : ByteArray} {x : Session} (h : Says content x) (hx : x.Storable) :
    (String.fromUTF8? content).bind SessionFile.read? = some x := by
  obtain ⟨u, hu, rfl, hassemble⟩ := h
  have hstorable : ({ x with updatedAt := u } : Session).Storable :=
    ⟨hx.createdAt, hu, hx.transcript⟩
  rw [fromUTF8?_toUTF8, Option.bind_some, read?_text hstorable]
  exact congrArg some hassemble

/-- A turn that has the time of the clock is recorded as it is, if the clock has not gone back. -/
theorem Session.extend_eq {x : Session} {t : Turn} {now : Timestamp} (ht : t.timestamp = now)
    (hstamped : ∀ u ∈ x.transcript, u.timestamp.le now) :
    x.extend t now = (t, { x with transcript := x.transcript ++ [t], updatedAt := now }) := by
  rw [extend]
  cases hlast : x.transcript.getLast? with
  | none =>
    dsimp only
    rw [ht, Timestamp.max_self]
  | some last =>
    have hle := hstamped last (List.mem_of_getLast? hlast)
    have hstay : { t with timestamp := t.timestamp.max last.timestamp } = t := by
      rw [ht, Timestamp.max_eq_left hle, ← ht]
    dsimp only
    rw [hstay, ht, Timestamp.max_eq_left hle, Timestamp.max_self]

/-- **A turn is recorded by its line.** -/
theorem Says.extend {content : ByteArray} {x : Session} (h : Says content x) {t : Turn}
    (hupdated : x.updatedAt.le t.timestamp) :
    Says (content ++ (line t.toJson).toUTF8)
      { x with transcript := x.transcript ++ [t], updatedAt := t.timestamp } := by
  obtain ⟨u, hu, rfl, hassemble⟩ := h
  have hbefore : u.le x.updatedAt := by
    have hu' : (assemble { x with updatedAt := u } x.transcript).updatedAt = x.updatedAt :=
      congrArg Session.updatedAt hassemble
    rw [← hu', assemble]
    cases x.transcript.getLast? with
    | none => exact Timestamp.le_refl u
    | some last => exact Timestamp.le_max_right _ _
  refine ⟨u, hu, ?_, ?_⟩
  · rw [← toUTF8_append, ← text_extend]
  · rw [assemble, List.getLast?_append, List.getLast?_singleton]
    dsimp only [Option.some_or, Option.map_some, Option.getD_some]
    rw [Timestamp.max_eq_left (Timestamp.le_trans hbefore hupdated)]

/-! ## What the directory says -/

/-- The directory says what the sessions and overrides are, but for the sessions that are gone. -/
structure Mirrors (sessions : Table SessionKey Session) (overrides : Table Identity SessionKey)
    (gone : List SessionKey) (d : Directory) : Prop where
  named : ∀ key, sessions.contains key → key.text ≠ ""
  stored : ∀ key ∈ gone, sessions.contains key
  file : ∀ key x, sessions.get? key = some x → key ∉ gone →
    ∃ content, d.entries.get? (fileName key) = some (.file content) ∧ Says content x
  missing : ∀ key ∈ gone, d.entries.get? (fileName key) = none
  only : ∀ name, isSessionFile name → d.entries.get? name ≠ none →
    ∃ key, sessions.contains key ∧ name = fileName key
  overrides : ∀ i, d.overrides.get? i = overrides.get? i
  plain : ∀ name, d.entries.get? name ≠ some .directory

variable {sessions : Table SessionKey Session} {overrides : Table Identity SessionKey}
  {gone : List SessionKey} {d d' : Directory} {name other : String} {key : SessionKey}
  {content : ByteArray} {x : Session}

theorem contains_of_get? (h : sessions.get? key = some x) : sessions.contains key := by
  rw [Table.contains, h]
  rfl

theorem overrides_congr (h : d'.entries.get? overridesName = d.entries.get? overridesName) :
    d'.overrides = d.overrides := by
  rw [Directory.overrides, Directory.overrides, text?, text?, h]

theorem overrides_of_touches (h : Touches name d d') (hname : overridesName ≠ name) :
    d'.overrides = d.overrides :=
  overrides_congr (h.others _ counts_overridesName hname)

namespace Mirrors

/-- What has changed nothing that counts. -/
theorem touched (h : Mirrors sessions overrides gone d) (htouches : Touches name d d')
    (hsame : d'.entries.get? name = d.entries.get? name) : Mirrors sessions overrides gone d' := by
  have hget {other : String} (hother : Counts other) :
      d'.entries.get? other = d.entries.get? other := by
    by_cases heq : other = name
    · rw [heq, hsame]
    · exact htouches.others other hother heq
  refine ⟨h.named, h.stored, fun key x hx hgone => ?_, fun key hgone => ?_,
    fun name hname hsome => ?_, fun i => ?_,
    fun name hdir => h.plain name (htouches.directories name hdir)⟩
  · rw [hget (counts_fileName (h.named key (contains_of_get? hx)))]
    exact h.file key x hx hgone
  · rw [hget (counts_fileName (h.named key (h.stored key hgone)))]
    exact h.missing key hgone
  · rw [hget (.inl hname)] at hsome
    exact h.only name hname hsome
  · rw [overrides_congr (hget counts_overridesName)]
    exact h.overrides i

/-- The files of other sessions stay. -/
theorem get?_other (h : Mirrors sessions overrides gone d) (htouches : Touches (fileName key) d d')
    {other : SessionKey} (hother : sessions.contains other) (hne : other ≠ key) :
    d'.entries.get? (fileName other) = d.entries.get? (fileName other) :=
  htouches.others _ (counts_fileName (h.named other hother)) fun heq => hne (fileName_injective heq)

theorem file_of_touches (h : Mirrors sessions overrides gone d)
    (htouches : Touches (fileName key) d d') {other : SessionKey}
    (hother : sessions.get? other = some x) (hne : other ≠ key)
    (hgone : other ∉ gone.filter (· ≠ key)) :
    ∃ content, d'.entries.get? (fileName other) = some (.file content) ∧ Says content x := by
  rw [h.get?_other htouches (contains_of_get? hother) hne]
  refine h.file other x hother fun hmem => hgone ?_
  exact List.mem_filter.2 ⟨hmem, decide_eq_true hne⟩

theorem missing_of_touches (h : Mirrors sessions overrides gone d)
    (htouches : Touches (fileName key) d d') {other : SessionKey}
    (hother : other ∈ gone.filter (· ≠ key)) : d'.entries.get? (fileName other) = none := by
  obtain ⟨hmem, hne⟩ := List.mem_filter.1 hother
  rw [h.get?_other htouches (h.stored other hmem) (of_decide_eq_true hne)]
  exact h.missing other hmem

theorem only_of_touches (h : Mirrors sessions overrides gone d)
    (htouches : Touches (fileName key) d d') (hname : isSessionFile name)
    (hsome : d'.entries.get? name ≠ none) (hne : name ≠ fileName key) :
    ∃ other, sessions.contains other ∧ name = fileName other := by
  rw [htouches.others name (.inl hname) hne] at hsome
  exact h.only name hname hsome

/-- **The file of a session was written.** -/
theorem set (h : Mirrors sessions overrides gone d) (hkey : key.text ≠ "")
    (htouches : Touches (fileName key) d d')
    (hfile : d'.entries.get? (fileName key) = some (.file content)) (hsaid : Says content x) :
    Mirrors (sessions.set key x) overrides (gone.filter (· ≠ key)) d' := by
  have hcontains {other : SessionKey} :=
    Table.contains_set_iff (t := sessions) (k := key) (v := x) (l := other)
  refine ⟨fun other hother => ?_, fun other hother => ?_, fun other y hy hgone => ?_,
    fun other hother => h.missing_of_touches htouches hother, fun name hname hsome => ?_,
    fun i => ?_, fun name hdir => h.plain name (htouches.directories name hdir)⟩
  · rcases hcontains.1 hother with rfl | hold
    · exact hkey
    · exact h.named other hold
  · exact hcontains.2 (.inr (h.stored other (List.mem_filter.1 hother).1))
  · rw [Table.get?_set] at hy
    split at hy
    · rename_i heq
      cases hy
      rw [heq]
      exact ⟨content, hfile, hsaid⟩
    · rename_i hne
      exact h.file_of_touches htouches hy hne hgone
  · by_cases heq : name = fileName key
    · exact ⟨key, hcontains.2 (.inl rfl), heq⟩
    · obtain ⟨other, hother, hfileName⟩ := h.only_of_touches htouches hname hsome heq
      exact ⟨other, hcontains.2 (.inr hother), hfileName⟩
  · rw [overrides_of_touches htouches (overridesName_ne_fileName hkey)]
    exact h.overrides i

/-- **The file of a session was removed.** -/
theorem erase (h : Mirrors sessions overrides gone d) (hkey : key.text ≠ "")
    (htouches : Touches (fileName key) d d')
    (hfile : d'.entries.get? (fileName key) = none) :
    Mirrors (sessions.erase key) overrides (gone.filter (· ≠ key)) d' := by
  have hcontains {other : SessionKey} :=
    Table.contains_erase_iff (t := sessions) (k := key) (l := other)
  refine ⟨fun other hother => h.named other (hcontains.1 hother).2, fun other hother => ?_,
    fun other y hy hgone => ?_, fun other hother => h.missing_of_touches htouches hother,
    fun name hname hsome => ?_, fun i => ?_,
    fun name hdir => h.plain name (htouches.directories name hdir)⟩
  · obtain ⟨hmem, hne⟩ := List.mem_filter.1 hother
    exact hcontains.2 ⟨of_decide_eq_true hne, h.stored other hmem⟩
  · have hne := (hcontains.1 (contains_of_get? hy)).1
    rw [Table.get?_erase, if_neg hne] at hy
    exact h.file_of_touches htouches hy hne hgone
  · by_cases heq : name = fileName key
    · rw [heq] at hsome
      exact absurd hfile hsome
    · obtain ⟨other, hother, hfileName⟩ := h.only_of_touches htouches hname hsome heq
      refine ⟨other, hcontains.2 ⟨?_, hother⟩, hfileName⟩
      rintro rfl
      exact heq hfileName
  · rw [overrides_of_touches htouches (overridesName_ne_fileName hkey)]
    exact h.overrides i

/-- **The overrides were written.** -/
theorem switch (h : Mirrors sessions overrides gone d) {others : Table Identity SessionKey}
    (hdistinct : others.Distinct) (hnameable : ∀ i key, others.get? i = some key → i.Nameable)
    (htouches : Touches overridesName d d')
    (hfile : d'.entries.get? overridesName = some (.file (overridesText others).toUTF8)) :
    Mirrors sessions others gone d' := by
  have hget {other : SessionKey} (hother : sessions.contains other) :
      d'.entries.get? (fileName other) = d.entries.get? (fileName other) :=
    htouches.others _ (counts_fileName (h.named other hother)) fun heq =>
      overridesName_ne_fileName (h.named other hother) heq.symm
  refine ⟨h.named, h.stored, fun key x hx hgone => ?_, fun key hgone => ?_,
    fun name hname hsome => ?_, fun i => ?_,
    fun name hdir => h.plain name (htouches.directories name hdir)⟩
  · rw [hget (contains_of_get? hx)]
    exact h.file key x hx hgone
  · rw [hget (h.stored key hgone)]
    exact h.missing key hgone
  · rw [htouches.others name (.inl hname)] at hsome
    · exact h.only name hname hsome
    · rintro rfl
      rw [not_isSessionFile_overridesName] at hname
      cases hname
  · rw [Directory.overrides, text?_of_get? hfile]
    exact readOverrides_overridesText hdistinct hnameable i

/-- **The file of a session was taken away.** -/
theorem lose (h : Mirrors sessions overrides gone d) (hkey : sessions.contains key) :
    Mirrors sessions overrides (key :: gone)
      { d with entries := d.entries.erase (fileName key) } := by
  have hother {name : String} (hne : name ≠ fileName key) :
      (d.entries.erase (fileName key)).get? name = d.entries.get? name := by
    rw [Table.get?_erase, if_neg hne]
  have hnone : (d.entries.erase (fileName key)).get? (fileName key) = none :=
    Table.get?_erase_self _ _
  refine ⟨h.named, fun other hmem => ?_, fun other x hx hgone => ?_, fun other hmem => ?_,
    fun name hname hsome => ?_, fun i => ?_, fun name hdir => ?_⟩
  · rcases List.mem_cons.1 hmem with rfl | hmem
    · exact hkey
    · exact h.stored other hmem
  · rw [List.mem_cons, not_or] at hgone
    rw [hother fun heq => hgone.1 (fileName_injective heq)]
    exact h.file other x hx hgone.2
  · by_cases heq : fileName other = fileName key
    · rw [heq]
      exact hnone
    · rcases List.mem_cons.1 hmem with rfl | hmem
      · exact absurd rfl heq
      · rw [hother heq]
        exact h.missing other hmem
  · by_cases heq : name = fileName key
    · rw [heq] at hsome
      exact absurd hnone hsome
    · rw [hother heq] at hsome
      exact h.only name hname hsome
  · have hoverrides : ({ d with entries := d.entries.erase (fileName key) } : Directory).overrides =
        d.overrides := overrides_congr (hother (overridesName_ne_fileName (h.named key hkey)))
    rw [hoverrides]
    exact h.overrides i
  · rw [Table.get?_erase] at hdir
    split at hdir
    · cases hdir
    · exact h.plain name hdir

/-! ## Opening what mirrors a store -/

/-- The sessions that a directory describes are those that are not gone. -/
theorem holds_iff (h : Mirrors sessions overrides gone d)
    (hstorable : ∀ key x, sessions.get? key = some x → x.Storable) {y : Session} :
    d.Holds name y ↔ ∃ key, sessions.get? key = some y ∧ key ∉ gone ∧ name = fileName key := by
  have hread {key : SessionKey} {x : Session} (hx : sessions.get? key = some x)
      (hgone : key ∉ gone) :
      (d.text? (fileName key)).bind SessionFile.read? = some x := by
    obtain ⟨content, hcontent, hsaid⟩ := h.file key x hx hgone
    rw [text?, hcontent]
    exact hsaid.read? (hstorable key x hx)
  constructor
  · rintro ⟨hname, hy⟩
    have hsome : d.entries.get? name ≠ none := by
      intro hnone
      rw [text?, hnone] at hy
      cases hy
    obtain ⟨key, hkey, rfl⟩ := h.only name hname hsome
    have hgone : key ∉ gone := fun hmem => hsome (h.missing key hmem)
    obtain ⟨x, hx⟩ := Option.isSome_iff_exists.1 hkey
    rw [hread hx hgone] at hy
    cases hy
    exact ⟨key, hx, hgone, rfl⟩
  · rintro ⟨key, hx, hgone, rfl⟩
    exact ⟨isSessionFile_fileName (h.named key (contains_of_get? hx)), hread hx hgone⟩

/-- **The sessions that are loaded are those of the store, but for those that are gone.** -/
theorem loadSessions (h : Mirrors sessions overrides gone d)
    (hkeys : ∀ key x, sessions.get? key = some x → x.key = key)
    (hstorable : ∀ key x, sessions.get? key = some x → x.Storable) (key : SessionKey) :
    (Store.loadSessions d).get? key = if key ∈ gone then none else sessions.get? key := by
  have hnone (habsent : sessions.get? key = none ∨ key ∈ gone) :
      (Store.loadSessions d).get? key = none := by
    refine loadSessions_get?_eq_none fun name y hy hkey => ?_
    obtain ⟨other, hother, hgone, -⟩ := (h.holds_iff hstorable).1 hy
    have heq := hkeys other y hother
    rw [hkey] at heq
    rw [← heq] at hother hgone
    rcases habsent with habsent | habsent
    · rw [habsent] at hother
      cases hother
    · exact hgone habsent
  split
  · rename_i hgone
    exact hnone (.inr hgone)
  · rename_i hgone
    cases hx : sessions.get? key with
    | none => exact hnone (.inl hx)
    | some x =>
      have hkey := hkeys key x hx
      have hload := loadSessions_get? (s := x)
        ⟨fileName key, (h.holds_iff hstorable).2 ⟨key, hx, hgone, rfl⟩⟩ fun name y hy heq => by
          obtain ⟨other, hother, -, -⟩ := (h.holds_iff hstorable).1 hy
          have hsame := hkeys other y hother
          rw [heq, hkey] at hsame
          rw [← hsame, hx] at hother
          exact (Option.some_inj.1 hother).symm
      rw [hkey] at hload
      exact hload

/-- The file of the overrides can be written, if the system lets it. -/
theorem exists_writeOverrides (h : Mirrors sessions overrides gone d)
    (hdrafted : d.refusal (.create (draftName overridesName)) = none)
    (hrenamed : d.refusal (.rename (draftName overridesName) overridesName) = none)
    (others : Table Identity SessionKey) :
    ∃ d', d.writeOverrides others = (.ok (), d') :=
  exists_replace (fun d => find?_of_fit d (by decide) (by decide))
    (fun d => find?_of_fit d (by decide) (by decide)) counts_overridesName h.plain hdrafted
    hrenamed _

theorem contains_loadSessions (h : Mirrors sessions overrides gone d)
    (hkeys : ∀ key x, sessions.get? key = some x → x.key = key)
    (hstorable : ∀ key x, sessions.get? key = some x → x.Storable) {key : SessionKey} :
    (Store.loadSessions d).contains key ↔ key ∉ gone ∧ sessions.contains key := by
  rw [Table.contains, h.loadSessions hkeys hstorable]
  split
  · rename_i hgone
    exact iff_of_false Bool.false_ne_true fun hnot => hnot.1 hgone
  · rename_i hgone
    exact (and_iff_right hgone).symm

/-- Nothing has to be written to open it if no session is gone. -/
theorem exists_openAt (h : Mirrors sessions overrides gone d)
    (hkeys : ∀ key x, sessions.get? key = some x → x.key = key)
    (hstorable : ∀ key x, sessions.get? key = some x → x.Storable)
    (hswitched : ∀ i key, overrides.get? i = some key → i.owns key ∧ sessions.contains key)
    (htaken : gone = [] ∨ ∀ action, d.refusal action = none) :
    ∃ s d', Store.openAt d = (.ok s, d') := by
  rcases htaken with rfl | hrefusal
  · refine ⟨_, _, Store.openAt_of_sound fun i key hkey => ?_⟩
    rw [h.overrides] at hkey
    obtain ⟨howns, hstored⟩ := hswitched i key hkey
    exact ⟨howns, (h.contains_loadSessions hkeys hstorable).2 ⟨List.not_mem_nil, hstored⟩⟩
  · exact Store.exists_openAt (h.exists_writeOverrides (hrefusal _) (hrefusal _) _)

/-- **A directory that mirrors a store opens as that store**, but for the sessions that are gone
and the overrides that name them.  Only to drop such overrides something is written. -/
theorem openAt (h : Mirrors sessions overrides gone d)
    (hkeys : ∀ key x, sessions.get? key = some x → x.key = key)
    (hstorable : ∀ key x, sessions.get? key = some x → x.Storable)
    (hswitched : ∀ i key, overrides.get? i = some key → i.owns key ∧ sessions.contains key)
    (htaken : gone = [] ∨ ∀ action, d.refusal action = none) :
    ∃ s d', Store.openAt d = (.ok s, d') ∧
      (∀ key, s.sessions.get? key = if key ∈ gone then none else sessions.get? key) ∧
      ∀ i, s.overrides.get? i = (overrides.get? i).filter (· ∉ gone) := by
  obtain ⟨s, d', hs⟩ := h.exists_openAt hkeys hstorable hswitched htaken
  obtain ⟨rfl, -⟩ := Store.openAt_ok hs
  refine ⟨_, d', hs, h.loadSessions hkeys hstorable, fun i => ?_⟩
  dsimp only
  rw [Store.get?_sound (distinct_overrides d), h.overrides]
  cases hi : overrides.get? i with
  | none => rfl
  | some key =>
    obtain ⟨howns, hstored⟩ := hswitched i key hi
    have hsame : (i.owns key && (Store.loadSessions d).contains key) = decide (key ∉ gone) := by
      rw [howns, Bool.true_and, Bool.eq_iff_iff, h.contains_loadSessions hkeys hstorable,
        decide_eq_true_eq]
      exact and_iff_left hstored
    rw [Option.filter_some, Option.filter_some, hsame]

end Mirrors

end Parley
