import Mathlib.Data.List.Basic
import Parley.Text.Lossy

/-!
# Reading the bytes of a text

`Lossy.decode` takes any bytes whatever.  Of the bytes of a text it reads that text
(`decode_utf8`).  The question is what becomes of bytes that are read piece by piece: the pieces
of a text's bytes need not be the bytes of texts, for a piece may begin or end inside a character.

## Counting characters

A byte tells by itself whether it begins a character or goes on with one.  So the characters of a
text can be counted in its bytes (`leads_utf8`), and the count is one that pieces add up.  Reading
makes at least one character of every byte that begins one (`leads_le_length`), and one more where
a piece begins with a byte that goes on: hence a text that is read right from its pieces was cut
between its characters only (`decodeAll_eq_iff`).
-/

namespace Parley.Text

/-- The bytes of a text. -/
def utf8 (text : List Char) : List UInt8 := text.flatMap String.utf8EncodeChar

variable {text : List Char} {bytes rest : List UInt8} {b : UInt8} {c : Char}

theorem data_toUTF8 (s : String) : s.toUTF8.data.toList = utf8 s.toList := by
  rw [utf8, String.toUTF8, ← String.utf8Encode_toList, List.utf8Encode, List.data_toByteArray]

@[simp] theorem utf8_nil : utf8 [] = [] := rfl

@[simp] theorem utf8_cons (c : Char) (text : List Char) :
    utf8 (c :: text) = String.utf8EncodeChar c ++ utf8 text := rfl

@[simp] theorem utf8_append (s t : List Char) : utf8 (s ++ t) = utf8 s ++ utf8 t :=
  List.flatMap_append

namespace Lossy

/-! ## One byte -/

theorem decodeFrom_ascii (h : b.toNat < 0x80) :
    decodeFrom none (b :: rest) = Char.ofNat b.toNat :: decodeFrom none rest := by
  simp [decodeFrom, h]

theorem decodeFrom_lead {p : Partial} (h : 0x80 ≤ b.toNat) (hp : expects b.toNat = some p) :
    decodeFrom none (b :: rest) = decodeFrom (some p) rest := by
  have hb : ¬ b.toNat < 0x80 := by omega
  simp [decodeFrom, hb, hp]

theorem decodeFrom_stray (h : 0x80 ≤ b.toNat) (hb : expects b.toNat = none) :
    decodeFrom none (b :: rest) = replacement :: decodeFrom none rest := by
  have hhigh : ¬ b.toNat < 0x80 := by omega
  simp [decodeFrom, hhigh, hb]

theorem decodeFrom_more {bits owed low high : Nat} (h : low ≤ b.toNat ∧ b.toNat ≤ high)
    (howed : ¬ owed ≤ 1) :
    decodeFrom (some ⟨bits, owed, low, high⟩) (b :: rest) =
      decodeFrom (some ⟨bits * 64 + (b.toNat - 0x80), owed - 1, 0x80, 0xBF⟩) rest := by
  simp [decodeFrom, h, howed]

theorem decodeFrom_last {bits owed low high : Nat} (h : low ≤ b.toNat ∧ b.toNat ≤ high)
    (howed : owed ≤ 1) :
    decodeFrom (some ⟨bits, owed, low, high⟩) (b :: rest) =
      Char.ofNat (bits * 64 + (b.toNat - 0x80)) :: decodeFrom none rest := by
  simp [decodeFrom, h, howed]

theorem decodeFrom_broken {p : Partial} (h : ¬ (p.low ≤ b.toNat ∧ b.toNat ≤ p.high)) :
    decodeFrom (some p) (b :: rest) = replacement :: decodeFrom none (b :: rest) := by
  rw [decodeFrom, decodeFrom]
  dsimp only
  rw [if_neg h]
  by_cases hb : b.toNat < 0x80
  · rw [if_pos hb, if_pos hb]
    rfl
  · rw [if_neg hb, if_neg hb]
    cases expects b.toNat <;> rfl

/-! ## One character

A character is written in one to four bytes.  Its leading byte announces how many follow and which
values the first of them may take; that the first following byte of a character is among these is
where the shortest form and the gap of the surrogates come in. -/

theorem expects_two {v : Nat} (h : 128 ≤ v) (h' : v < 2048) :
    expects (v / 64 + 192) = some ⟨v / 64, 1, 0x80, 0xBF⟩ := by
  have hrange : 0xC2 ≤ v / 64 + 192 ∧ v / 64 + 192 ≤ 0xDF := by omega
  simp [expects, hrange]

theorem exists_expects_three {v : Nat} (h : 2048 ≤ v) (h' : v < 65536)
    (hgap : v < 0xD800 ∨ 0xDFFF < v) :
    ∃ low high, expects (v / 4096 + 224) = some ⟨v / 4096, 2, low, high⟩ ∧
      low ≤ v / 64 % 64 + 128 ∧ v / 64 % 64 + 128 ≤ high := by
  have hfour : ¬ (0xC2 ≤ v / 4096 + 224 ∧ v / 4096 + 224 ≤ 0xDF) := by omega
  by_cases hlow : v / 4096 = 0
  · exact ⟨0xA0, 0xBF, by simp [expects, hlow], by omega, by omega⟩
  · by_cases hsurrogate : v / 4096 = 13
    · exact ⟨0x80, 0x9F, by simp [expects, hsurrogate], by omega, by omega⟩
    · have hrange : 0xE1 ≤ v / 4096 + 224 ∧ v / 4096 + 224 ≤ 0xEF := by omega
      refine ⟨0x80, 0xBF, ?_, by omega, by omega⟩
      rw [expects, if_neg hfour, if_neg (by omega), if_neg (by omega), if_pos hrange,
        Nat.add_sub_cancel]

theorem exists_expects_four {v : Nat} (h : 65536 ≤ v) (h' : v < 0x110000) :
    ∃ low high, expects (v / 262144 + 240) = some ⟨v / 262144, 3, low, high⟩ ∧
      low ≤ v / 4096 % 64 + 128 ∧ v / 4096 % 64 + 128 ≤ high := by
  have hcases : v / 262144 = 0 ∨ v / 262144 = 4 ∨ (1 ≤ v / 262144 ∧ v / 262144 ≤ 3) := by omega
  rcases hcases with hlow | hhigh | hrange
  · exact ⟨0x90, 0xBF, by simp [expects, hlow], by omega, by omega⟩
  · exact ⟨0x80, 0x8F, by simp [expects, hhigh], by omega, by omega⟩
  · have hlead : 0xF1 ≤ v / 262144 + 240 ∧ v / 262144 + 240 ≤ 0xF3 := by omega
    refine ⟨0x80, 0xBF, ?_, by omega, by omega⟩
    rw [expects, if_neg (by omega), if_neg (by omega), if_neg (by omega), if_neg (by omega),
      if_neg (by omega), if_pos hlead, Nat.add_sub_cancel]

/-- Of a byte it matters which number it is. -/
theorem toNat_byte {n : Nat} (h : n < 256) : (UInt8.ofNat n).toNat = n :=
  UInt8.toNat_ofNat_of_lt' h

theorem decodeFrom_two {v : Nat} (h : 128 ≤ v) (h' : v < 2048) :
    decodeFrom none (UInt8.ofNat (v / 64 % 32 + 192) :: UInt8.ofNat (v % 64 + 128) :: rest) =
      Char.ofNat v :: decodeFrom none rest := by
  have hlead : (UInt8.ofNat (v / 64 % 32 + 192)).toNat = v / 64 + 192 := by
    rw [toNat_byte (by omega)]
    omega
  have hlast := toNat_byte (n := v % 64 + 128) (by omega)
  rw [decodeFrom_lead (by omega) (hlead ▸ expects_two h h'),
    decodeFrom_last (by omega) (by decide), hlast,
    show v / 64 * 64 + (v % 64 + 128 - 0x80) = v by omega]

theorem decodeFrom_three {v : Nat} (h : 2048 ≤ v) (h' : v < 65536)
    (hgap : v < 0xD800 ∨ 0xDFFF < v) :
    decodeFrom none (UInt8.ofNat (v / 4096 % 16 + 224) :: UInt8.ofNat (v / 64 % 64 + 128) ::
      UInt8.ofNat (v % 64 + 128) :: rest) = Char.ofNat v :: decodeFrom none rest := by
  obtain ⟨low, high, hexpects, hrange⟩ := exists_expects_three h h' hgap
  have hlead : (UInt8.ofNat (v / 4096 % 16 + 224)).toNat = v / 4096 + 224 := by
    rw [toNat_byte (by omega)]
    omega
  have hsecond := toNat_byte (n := v / 64 % 64 + 128) (by omega)
  have hlast := toNat_byte (n := v % 64 + 128) (by omega)
  rw [decodeFrom_lead (by omega) (hlead ▸ hexpects),
    decodeFrom_more (by omega) (by decide),
    decodeFrom_last (by omega) (by decide), hsecond, hlast,
    show (v / 4096 * 64 + (v / 64 % 64 + 128 - 0x80)) * 64 + (v % 64 + 128 - 0x80) = v by omega]

theorem decodeFrom_four {v : Nat} (h : 65536 ≤ v) (h' : v < 0x110000) :
    decodeFrom none (UInt8.ofNat (v / 262144 % 8 + 240) :: UInt8.ofNat (v / 4096 % 64 + 128) ::
      UInt8.ofNat (v / 64 % 64 + 128) :: UInt8.ofNat (v % 64 + 128) :: rest) =
      Char.ofNat v :: decodeFrom none rest := by
  obtain ⟨low, high, hexpects, hrange⟩ := exists_expects_four h h'
  have hlead : (UInt8.ofNat (v / 262144 % 8 + 240)).toNat = v / 262144 + 240 := by
    rw [toNat_byte (by omega)]
    omega
  have hsecond := toNat_byte (n := v / 4096 % 64 + 128) (by omega)
  have hthird := toNat_byte (n := v / 64 % 64 + 128) (by omega)
  have hlast := toNat_byte (n := v % 64 + 128) (by omega)
  rw [decodeFrom_lead (by omega) (hlead ▸ hexpects),
    decodeFrom_more (by omega) (by decide),
    decodeFrom_more (by omega) (by decide),
    decodeFrom_last (by omega) (by decide), hsecond, hthird, hlast,
    show ((v / 262144 * 64 + (v / 4096 % 64 + 128 - 0x80)) * 64 +
      (v / 64 % 64 + 128 - 0x80)) * 64 + (v % 64 + 128 - 0x80) = v by omega]

/-- **The bytes of a character are read as that character**, whatever follows. -/
theorem decodeFrom_utf8EncodeChar (c : Char) (rest : List UInt8) :
    decodeFrom none (String.utf8EncodeChar c ++ rest) = c :: decodeFrom none rest := by
  have hvalid : c.val.toNat < 0xD800 ∨ 0xDFFF < c.val.toNat ∧ c.val.toNat < 0x110000 := c.valid
  have hchar : Char.ofNat c.val.toNat = c := Char.ofNat_toNat c
  rw [String.utf8EncodeChar]
  generalize c.val.toNat = v at hvalid hchar ⊢
  subst hchar
  by_cases hone : v ≤ 127
  · have hbyte := toNat_byte (n := v) (by omega)
    rw [if_pos hone, List.singleton_append, decodeFrom_ascii (by omega), hbyte]
  · by_cases htwo : v ≤ 2047
    · rw [if_neg hone, if_pos htwo]
      exact decodeFrom_two (by omega) (by omega)
    · by_cases hthree : v ≤ 65535
      · rw [if_neg hone, if_neg htwo, if_pos hthree]
        exact decodeFrom_three (by omega) (by omega) (by omega)
      · rw [if_neg hone, if_neg htwo, if_neg hthree]
        exact decodeFrom_four (by omega) (by omega)

theorem decodeFrom_utf8_append (text : List Char) (rest : List UInt8) :
    decodeFrom none (utf8 text ++ rest) = text ++ decodeFrom none rest := by
  induction text with
  | nil => rfl
  | cons c text ih =>
    rw [utf8_cons, List.append_assoc, decodeFrom_utf8EncodeChar, ih, List.cons_append]

/-- **The bytes of a text are read as that text.** -/
theorem decode_utf8 (text : List Char) : decode (utf8 text) = text := by
  have h := decodeFrom_utf8_append text []
  rwa [List.append_nil, decodeFrom, Option.isSome_none, if_neg Bool.false_ne_true,
    List.append_nil] at h

end Lossy

/-- Bytes are the bytes of one text at most. -/
theorem utf8_injective : Function.Injective utf8 :=
  Function.LeftInverse.injective Lossy.decode_utf8

/-- Whether bytes are the bytes of a text. -/
def IsText (bytes : List UInt8) : Prop := ∃ text, bytes = utf8 text

/-- A text cut after some of its characters; nothing stands in between. -/
def cutAfter (text : String) (n : Nat) : List (List UInt8) :=
  [utf8 (text.toList.take n), [], utf8 (text.toList.drop n)]

theorem flatten_cutAfter (text : String) (n : Nat) :
    (cutAfter text n).flatten = text.toUTF8.data.toList := by
  have hjoin : (cutAfter text n).flatten =
      utf8 (text.toList.take n) ++ utf8 (text.toList.drop n) := by
    simp [cutAfter]
  rw [hjoin, ← utf8_append, List.take_append_drop, data_toUTF8]

theorem isText_cutAfter (text : String) (n : Nat) : ∀ piece ∈ cutAfter text n, IsText piece := by
  rw [cutAfter]
  simp only [List.forall_mem_cons]
  exact ⟨⟨_, rfl⟩, ⟨[], rfl⟩, ⟨_, rfl⟩, nofun⟩

/-! ## Bytes that begin a character -/

/-- Whether a byte begins a character; the others go on with one. -/
def isLead (b : UInt8) : Bool := b.toNat < 0x80 || 0xC0 ≤ b.toNat

/-- How many bytes begin a character. -/
def leads (bytes : List UInt8) : Nat := bytes.countP isLead

@[simp] theorem leads_append (front back : List UInt8) :
    leads (front ++ back) = leads front + leads back := List.countP_append

/-- The first byte of a character begins it, and the others go on with it. -/
theorem utf8EncodeChar_eq_cons (c : Char) :
    ∃ first more, String.utf8EncodeChar c = first :: more ∧ isLead first = true ∧
      ∀ b ∈ more, isLead b = false := by
  have hmore : ∀ n < 64, isLead (UInt8.ofNat (n + 128)) = false := by
    intro n hn
    rw [isLead, Lossy.toNat_byte (by omega), Bool.or_eq_false_iff, decide_eq_false_iff_not,
      decide_eq_false_iff_not]
    omega
  have hfirst : ∀ n < 256, n < 128 ∨ 192 ≤ n → isLead (UInt8.ofNat n) = true := by
    intro n hn h
    rw [isLead, Lossy.toNat_byte hn, Bool.or_eq_true, decide_eq_true_eq, decide_eq_true_eq]
    exact h
  rw [String.utf8EncodeChar]
  generalize c.val.toNat = v
  split_ifs
  · exact ⟨_, _, rfl, hfirst _ (by omega) (by omega), nofun⟩
  · refine ⟨_, _, rfl, hfirst _ (by omega) (by omega), ?_⟩
    simp only [List.forall_mem_cons]
    exact ⟨hmore _ (by omega), nofun⟩
  · refine ⟨_, _, rfl, hfirst _ (by omega) (by omega), ?_⟩
    simp only [List.forall_mem_cons]
    exact ⟨hmore _ (by omega), hmore _ (by omega), nofun⟩
  · refine ⟨_, _, rfl, hfirst _ (by omega) (by omega), ?_⟩
    simp only [List.forall_mem_cons]
    exact ⟨hmore _ (by omega), hmore _ (by omega), hmore _ (by omega), nofun⟩

/-- **A text has as many characters as its bytes begin.** -/
theorem leads_utf8 (text : List Char) : leads (utf8 text) = text.length := by
  induction text with
  | nil => rfl
  | cons c text ih =>
    obtain ⟨first, more, hbytes, hfirst, hmore⟩ := utf8EncodeChar_eq_cons c
    have hnone : more.countP isLead = 0 := by
      rw [List.countP_eq_zero]
      intro b hb
      rw [hmore b hb]
      exact Bool.false_ne_true
    rw [utf8_cons, leads_append, ih, hbytes, leads, List.countP_cons_of_pos hfirst, hnone,
      List.length_cons, Nat.add_comm]

/-- Bytes of a text that are cut before a byte that begins a character are cut between two texts. -/
theorem exists_utf8_append {text : List Char} {bytes rest : List UInt8}
    (h : utf8 text = bytes ++ rest) (hrest : ∀ b ∈ rest.head?, isLead b = true) :
    ∃ before after, text = before ++ after ∧ bytes = utf8 before ∧ rest = utf8 after := by
  induction text generalizing bytes with
  | nil =>
    obtain ⟨rfl, rfl⟩ := List.append_eq_nil_iff.1 h.symm
    exact ⟨[], [], rfl, rfl, rfl⟩
  | cons c text ih =>
    rw [utf8_cons, List.append_eq_append_iff] at h
    rcases h with ⟨tail, rfl, hrest'⟩ | ⟨tail, hchar, rfl⟩
    · obtain ⟨before, after, rfl, rfl, rfl⟩ := ih hrest'
      exact ⟨c :: before, after, rfl, rfl, rfl⟩
    · cases bytes with
      | nil =>
        rw [List.nil_append] at hchar
        exact ⟨[], c :: text, rfl, rfl, by rw [← hchar, utf8_cons]⟩
      | cons first front =>
        -- a cut inside the character would be before a byte that goes on with it
        cases tail with
        | nil =>
          rw [List.append_nil] at hchar
          exact ⟨[c], text, rfl, by rw [utf8_cons, hchar, utf8_nil, List.append_nil], rfl⟩
        | cons b tail =>
          obtain ⟨first', more, hbytes, -, hmore⟩ := utf8EncodeChar_eq_cons c
          rw [hbytes, List.cons_append, List.cons.injEq] at hchar
          have hb : b ∈ more := hchar.2 ▸ List.mem_append_right _ List.mem_cons_self
          have hlead := hrest b rfl
          rw [hmore b hb] at hlead
          exact absurd hlead Bool.false_ne_true

namespace Lossy

/-! ## How many characters are read -/

/-- A character in the making goes on with bytes that begin none. -/
def Partial.IsProper (p : Partial) : Prop := 0x80 ≤ p.low ∧ p.high < 0xC0

theorem isProper_of_expects {n : Nat} {p : Partial} (h : expects n = some p) : p.IsProper := by
  unfold expects at h
  split_ifs at h <;> rw [← Option.some.inj h] <;> simp [Partial.IsProper]

/-- **Every byte that begins a character makes one**, and so does a character in the making. -/
theorem leads_le_length (bytes : List UInt8) (held : Option Partial)
    (h : ∀ p ∈ held, p.IsProper) :
    leads bytes + held.toList.length ≤ (decodeFrom held bytes).length := by
  induction bytes generalizing held with
  | nil => cases held <;> simp [leads, decodeFrom]
  | cons b rest ih =>
    have hcons : leads (b :: rest) ≤ leads rest + 1 := by
      rw [leads, leads, List.countP_cons]
      split <;> omega
    have hfresh : leads (b :: rest) ≤ (decodeFrom none (b :: rest)).length := by
      have hrest := ih none nofun
      by_cases hb : b.toNat < 0x80
      · rw [decodeFrom_ascii hb, List.length_cons]
        exact Nat.le_trans hcons (Nat.succ_le_succ hrest)
      · cases hexpects : expects b.toNat with
        | none =>
          rw [decodeFrom_stray (by omega) hexpects, List.length_cons]
          exact Nat.le_trans hcons (Nat.succ_le_succ hrest)
        | some p =>
          rw [decodeFrom_lead (by omega) hexpects]
          exact Nat.le_trans hcons (ih (some p) fun q hq =>
            isProper_of_expects (Option.mem_some_iff.1 hq ▸ hexpects))
    cases held with
    | none => exact hfresh
    | some p =>
      by_cases hrange : p.low ≤ b.toNat ∧ b.toNat ≤ p.high
      · -- the byte goes on with the character, and so begins none
        have hlead : leads (b :: rest) = leads rest := by
          obtain ⟨hlow, hhigh⟩ := h p rfl
          rw [leads, leads, List.countP_cons_of_neg]
          simp [isLead]
          omega
        obtain ⟨bits, owed, low, high⟩ := p
        by_cases howed : owed ≤ 1
        · have hrest := ih none nofun
          rw [hlead, decodeFrom_last hrange howed, List.length_cons]
          exact Nat.succ_le_succ hrest
        · rw [hlead, decodeFrom_more hrange howed]
          have hmore := ih (some ⟨bits * 64 + (b.toNat - 0x80), owed - 1, 0x80, 0xBF⟩)
            fun q hq => by simp [← Option.mem_some_iff.1 hq, Partial.IsProper]
          rwa [Option.toList_some, List.length_singleton] at hmore ⊢
      · rw [decodeFrom_broken hrange, List.length_cons]
        exact Nat.succ_le_succ hfresh

/-- A byte that goes on with a character, where none is in the making, makes one too many. -/
theorem leads_lt_length {b : UInt8} (h : isLead b = false) (rest : List UInt8) :
    leads (b :: rest) < (decode (b :: rest)).length := by
  have hhigh : 0x80 ≤ b.toNat ∧ b.toNat < 0xC0 := by
    simp [isLead] at h
    omega
  have hstray : expects b.toNat = none := by
    unfold expects
    split_ifs <;> first | omega | rfl
  have hrest := leads_le_length rest none nofun
  rw [decode, decodeFrom_stray hhigh.1 hstray, List.length_cons, leads,
    List.countP_cons_of_neg (by rw [h]; exact Bool.false_ne_true)]
  exact Nat.lt_succ_of_le hrest

/-! ## Reading piece by piece -/

/-- The text of some pieces, each read by itself. -/
def decodeAll (pieces : List (List UInt8)) : List Char := pieces.flatMap decode

@[simp] theorem decodeAll_cons (piece : List UInt8) (pieces : List (List UInt8)) :
    decodeAll (piece :: pieces) = decode piece ++ decodeAll pieces := rfl

theorem utf8_decodeAll {pieces : List (List UInt8)} (h : ∀ piece ∈ pieces, IsText piece) :
    utf8 (decodeAll pieces) = pieces.flatten := by
  induction pieces with
  | nil => rfl
  | cons piece pieces ih =>
    obtain ⟨⟨text, rfl⟩, hpieces⟩ := List.forall_mem_cons.1 h
    rw [decodeAll_cons, decode_utf8, utf8_append, ih hpieces, List.flatten_cons]

theorem leads_flatten_le (pieces : List (List UInt8)) :
    leads pieces.flatten ≤ (decodeAll pieces).length := by
  induction pieces with
  | nil => exact Nat.le_refl 0
  | cons piece pieces ih =>
    rw [List.flatten_cons, leads_append, decodeAll_cons, List.length_append]
    exact Nat.add_le_add (leads_le_length piece none nofun) ih

/-- Pieces that go on with a character that none of them began make one too many. -/
theorem leads_flatten_lt {pieces : List (List UInt8)} {b : UInt8} (h : isLead b = false)
    (hhead : pieces.flatten.head? = some b) :
    leads pieces.flatten < (decodeAll pieces).length := by
  induction pieces with
  | nil => cases hhead
  | cons piece pieces ih =>
    rw [List.flatten_cons, leads_append, decodeAll_cons, List.length_append]
    cases piece with
    | nil => simpa [leads, decode, decodeFrom] using ih hhead
    | cons b' rest =>
      rw [List.flatten_cons, List.cons_append, List.head?_cons, Option.some.injEq] at hhead
      exact Nat.add_lt_add_of_lt_of_le (leads_lt_length (hhead ▸ h) rest) (leads_flatten_le pieces)

/-- Where no piece makes a character too many, every piece is a text. -/
theorem isText_of_length_le {text : List Char} {pieces : List (List UInt8)}
    (htext : pieces.flatten = utf8 text)
    (h : (decodeAll pieces).length ≤ leads pieces.flatten) : ∀ piece ∈ pieces, IsText piece := by
  induction pieces generalizing text with
  | nil => nofun
  | cons piece pieces ih =>
    have hpiece := leads_le_length piece none nofun
    rw [List.flatten_cons, leads_append, decodeAll_cons, List.length_append, decode] at h
    have hpieces : (decodeAll pieces).length ≤ leads pieces.flatten := by
      rw [Option.toList_none, List.length_nil] at hpiece
      omega
    have hhead : ∀ b ∈ pieces.flatten.head?, isLead b = true := by
      intro b hb
      by_contra hlead
      have hlt := leads_flatten_lt (Bool.eq_false_iff.2 hlead) hb
      omega
    obtain ⟨before, after, -, hbefore, hafter⟩ := exists_utf8_append htext.symm hhead
    exact List.forall_mem_cons.2 ⟨⟨before, hbefore⟩, ih hafter hpieces⟩

/-- **A text is read right from its pieces just when it was cut between characters.** -/
theorem decodeAll_eq_iff {text : List Char} {pieces : List (List UInt8)}
    (h : pieces.flatten = utf8 text) :
    decodeAll pieces = text ↔ ∀ piece ∈ pieces, IsText piece := by
  constructor
  · intro heq
    refine isText_of_length_le h (Nat.le_of_eq ?_)
    rw [heq, h, leads_utf8]
  · intro hpieces
    apply utf8_injective
    rw [utf8_decodeAll hpieces, h]

end Lossy

end Parley.Text
