import Mathlib.Data.List.TakeDrop
import Mathlib.Tactic.SplitIfs
import Parley.Session.File

/-!
# The names of session files

Distinct keys have distinct files (`fileName_injective`): a name spells the bytes of its key, and
`spelledBytes` reads them off again.  The file of a key that is not empty is a session file
(`isSessionFile_fileName`), which neither the file of the overrides nor any draft is.
-/

namespace Parley.SessionFile

/-! ## Spelling -/

/-- The value of an upper-case hexadecimal digit. -/
def hexValue (c : Char) : Nat :=
  if c.toNat < 65 then c.toNat - 48 else c.toNat - 55

theorem hexValue_hexDigit {n : Nat} (h : n < 16) : hexValue (hexDigit n) = n := by
  have hall : ∀ m : Fin 16, hexValue (hexDigit m) = m := by decide
  exact hall ⟨n, h⟩

/-- The bytes that a name spells. -/
def spelledBytes : List Char → List UInt8
  | '_' :: rest => 58 :: spelledBytes rest
  | '%' :: high :: low :: rest =>
    UInt8.ofNat (hexValue high * 16 + hexValue low) :: spelledBytes rest
  | c :: rest => UInt8.ofNat c.toNat :: spelledBytes rest
  | [] => []

variable {c : Char} {rest : List Char}

theorem isPlain_cases (h : isPlain c) :
    (97 ≤ c.toNat ∧ c.toNat ≤ 122) ∨ (65 ≤ c.toNat ∧ c.toNat ≤ 90) ∨
      (48 ≤ c.toNat ∧ c.toNat ≤ 57) ∨ c = '-' ∨ c = '.' := by
  simp only [isPlain, Bool.or_eq_true, Bool.and_eq_true, decide_eq_true_eq, or_assoc] at h
  exact h

theorem toNat_le_of_isPlain (h : isPlain c) : c.toNat ≤ 127 := by
  rcases isPlain_cases h with h | h | h | rfl | rfl
  · omega
  · omega
  · omega
  · decide
  · decide

theorem spelledBytes_byte (b : UInt8) (rest : List Char) :
    spelledBytes (escapeByte b ++ rest) = b :: spelledBytes rest := by
  have hb : b.toNat < 256 := b.toNat_lt
  have hvalue : b.toNat / 16 * 16 + b.toNat % 16 = b.toNat := by omega
  rw [escapeByte, List.cons_append, List.cons_append, List.singleton_append, spelledBytes,
    hexValue_hexDigit (by omega), hexValue_hexDigit (by omega), hvalue, UInt8.ofNat_toNat]

theorem spelledBytes_bytes (bytes : List UInt8) (rest : List Char) :
    spelledBytes (bytes.flatMap escapeByte ++ rest) = bytes ++ spelledBytes rest := by
  induction bytes with
  | nil => rfl
  | cons b bytes ih =>
    rw [List.flatMap_cons, List.append_assoc, spelledBytes_byte, ih, List.cons_append]

theorem spelledBytes_plain (h : isPlain c) (rest : List Char) :
    spelledBytes (c :: rest) = UInt8.ofNat c.toNat :: spelledBytes rest := by
  have hunderscore : c ≠ '_' := by
    rintro rfl
    cases h
  have hpercent : c ≠ '%' := by
    rintro rfl
    cases h
  rw [spelledBytes]
  · exact hunderscore
  · intro _ _ _ hc
    exact absurd hc hpercent

/-- **A spelled character is read off as its bytes.** -/
theorem spelledBytes_spell (c : Char) (rest : List Char) :
    spelledBytes (spell c ++ rest) = String.utf8EncodeChar c ++ spelledBytes rest := by
  rw [spell]
  split_ifs with hcolon hplain
  · subst hcolon
    rfl
  · have hbytes : String.utf8EncodeChar c = [UInt8.ofNat c.toNat] :=
      if_pos (toNat_le_of_isPlain hplain)
    rw [hbytes, List.singleton_append, List.singleton_append, spelledBytes_plain hplain]
  · exact spelledBytes_bytes _ _

theorem spelledBytes_flatMap (text : List Char) :
    spelledBytes (text.flatMap spell) = text.flatMap String.utf8EncodeChar := by
  induction text with
  | nil => rfl
  | cons c text ih => rw [List.flatMap_cons, List.flatMap_cons, spelledBytes_spell, ih]

/-- **Distinct keys have distinct files.** -/
theorem fileName_injective {k l : SessionKey} (h : fileName k = fileName l) : k = l := by
  have hspelled : k.text.toList.flatMap spell = l.text.toList.flatMap spell :=
    List.append_cancel_right (String.ofList_inj.1 h)
  have hbytes : k.text.toList.flatMap String.utf8EncodeChar =
      l.text.toList.flatMap String.utf8EncodeChar := by
    rw [← spelledBytes_flatMap, hspelled, spelledBytes_flatMap]
  have htext : k.text.toByteArray = l.text.toByteArray := by
    rw [← String.utf8Encode_toList, ← String.utf8Encode_toList, List.utf8Encode, hbytes,
      List.utf8Encode]
  exact congrArg SessionKey.mk (String.toByteArray_inj.1 htext)

/-! ## Characters -/

/-- The characters of names are printable. -/
theorem printable_of_mem_spell {d : Char} (h : d ∈ spell c) : 32 < d.toNat := by
  have hdigit {n : Nat} (hn : n < 16) : 32 < (hexDigit n).toNat := by
    have hall : ∀ m : Fin 16, 32 < (hexDigit m).toNat := by decide
    exact hall ⟨n, hn⟩
  unfold spell at h
  split_ifs at h with hcolon hplain
  · cases List.mem_singleton.1 h
    decide
  · cases List.mem_singleton.1 h
    rcases isPlain_cases hplain with h | h | h | rfl | rfl
    · omega
    · omega
    · omega
    · decide
    · decide
  · obtain ⟨b, -, hd⟩ := List.mem_flatMap.1 h
    have hb : b.toNat < 256 := b.toNat_lt
    simp only [escapeByte, List.mem_cons, List.not_mem_nil, or_false] at hd
    rcases hd with rfl | rfl | rfl
    · decide
    · exact hdigit (by omega)
    · exact hdigit (by omega)

theorem spell_ne_nil (c : Char) : spell c ≠ [] := by
  rw [spell]
  split_ifs
  · exact List.cons_ne_nil _ _
  · exact List.cons_ne_nil _ _
  · obtain ⟨b, bytes, hbytes⟩ := List.exists_cons_of_ne_nil (String.utf8EncodeChar_ne_nil (c := c))
    rw [hbytes]
    exact List.cons_ne_nil _ _

/-- No name holds the character zero. -/
theorem contains_zero_fileName (key : SessionKey) :
    (fileName key).toList.contains '\x00' = false := by
  rw [fileName, String.toList_ofList, ← Bool.not_eq_true, List.contains_iff_mem, List.mem_append,
    List.mem_flatMap]
  rintro (⟨c, -, hzero⟩ | hzero)
  · have hprintable := printable_of_mem_spell hzero
    have : '\x00'.toNat = 0 := rfl
    omega
  · revert hzero
    decide

/-! ## Extensions -/

/-- What follows the last point of a name is its extension, if something stands before. -/
theorem splitExtension_point (stem tail : List Char) (hstem : stem ≠ []) (htail : '.' ∉ tail) :
    splitExtension (String.ofList (stem ++ '.' :: tail)) =
      (String.ofList stem, some (String.ofList tail)) := by
  have hreverse : (stem ++ '.' :: tail).reverse = tail.reverse ++ '.' :: stem.reverse := by
    rw [List.reverse_append, List.reverse_cons, List.append_assoc, List.singleton_append]
  have hall : ∀ c ∈ tail.reverse, decide (c ≠ '.') = true := by
    intro c hc
    rw [decide_eq_true_eq]
    rintro rfl
    exact htail (List.mem_reverse.1 hc)
  have hspan : (tail.reverse ++ '.' :: stem.reverse).span (· ≠ '.') =
      (tail.reverse, '.' :: stem.reverse) := by
    rw [List.span_eq_takeWhile_dropWhile, List.takeWhile_append_of_pos hall,
      List.dropWhile_append_of_pos hall, List.takeWhile_cons_of_neg (by decide),
      List.dropWhile_cons_of_neg (by decide), List.append_nil]
  obtain ⟨c, more, hmore⟩ := List.exists_cons_of_ne_nil (List.reverse_ne_nil_iff.2 hstem)
  have hback : (c :: more).reverse = stem := by rw [← hmore, List.reverse_reverse]
  rw [splitExtension, String.toList_ofList, hreverse, hspan, hmore]
  simp only [hback, List.reverse_reverse]

/-- **The file of a key that is not empty is a session file.** -/
theorem isSessionFile_fileName {key : SessionKey} (h : key.text ≠ "") :
    isSessionFile (fileName key) := by
  have hstem : key.text.toList.flatMap spell ≠ [] := by
    obtain ⟨c, more, hmore⟩ := List.exists_cons_of_ne_nil (mt String.toList_eq_nil_iff.1 h)
    rw [hmore, List.flatMap_cons]
    exact List.append_ne_nil_of_left_ne_nil (spell_ne_nil c) _
  have hsplit := splitExtension_point _ ['j', 's', 'o', 'n', 'l'] hstem (by decide)
  rw [isSessionFile, fileName, suffix, hsplit]
  rfl

/-- A draft has an extension of its own, or none. -/
theorem extension_draftName (name : String) :
    (splitExtension (draftName name)).2 = some "tmp" ∨
      (splitExtension (draftName name)).2 = none := by
  obtain ⟨stem, hstem⟩ : ∃ stem, stem = (splitExtension name).1.toList := ⟨_, rfl⟩
  have hname : draftName name = String.ofList (stem ++ '.' :: ['t', 'm', 'p']) := by
    rw [draftName, hstem, ← String.toList_inj, String.toList_append, String.toList_ofList,
      String.toList_ofList]
  rw [hname]
  by_cases hnil : stem = []
  · right
    rw [hnil, List.nil_append]
    decide
  · left
    rw [splitExtension_point _ _ hnil (by decide)]

theorem extension_overridesName : (splitExtension overridesName).2 = some "json" := by
  have hsplit := splitExtension_point ['_', 'a', 'c', 't', 'i', 'v', 'e'] ['j', 's', 'o', 'n']
    (by decide) (by decide)
  have hname : overridesName = String.ofList (['_', 'a', 'c', 't', 'i', 'v', 'e'] ++
      '.' :: ['j', 's', 'o', 'n']) := rfl
  rw [hname, hsplit]

/-- **No draft is a session file.** -/
theorem not_isSessionFile_draftName (name : String) : isSessionFile (draftName name) = false := by
  rw [isSessionFile, decide_eq_false_iff_not]
  rcases extension_draftName name with h | h <;> rw [h] <;> decide

theorem not_isSessionFile_overridesName : isSessionFile overridesName = false := by
  rw [isSessionFile, extension_overridesName]
  decide

theorem draftName_ne_overridesName (name : String) : draftName name ≠ overridesName := by
  intro h
  have hextension := extension_draftName name
  rw [h, extension_overridesName] at hextension
  revert hextension
  decide

end Parley.SessionFile
