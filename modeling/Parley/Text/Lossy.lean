/-!
# Reading bytes as text without refusing any

Bytes that come off a network connection are read as UTF-8, and what is not UTF-8 becomes the
replacement character `U+FFFD`, one for each *maximal ill-formed part*: the longest run of bytes
that some well-formed character starts with, and at least one byte.

`decode` takes its bytes one at a time.  `expects` gives, for a leading byte, how many bytes
follow it and which values the first of them may take; those ranges rule out overlong forms,
surrogates and values beyond `U+10FFFF` at the earliest byte that shows them.
-/

namespace Parley.Text.Lossy

/-- What stands for bytes that are no character. -/
def replacement : Char := '\ufffd'

/-- A character in the making: the bits read so far, how many bytes are still owed, and the
range the next one must lie in. -/
structure Partial where
  bits : Nat
  owed : Nat
  low : Nat
  high : Nat

/-- What a leading byte announces, if it can lead a character of more than one byte. -/
def expects (b : Nat) : Option Partial :=
  if 0xC2 ≤ b ∧ b ≤ 0xDF then some ⟨b - 0xC0, 1, 0x80, 0xBF⟩
  else if b = 0xE0 then some ⟨0, 2, 0xA0, 0xBF⟩
  else if b = 0xED then some ⟨0xD, 2, 0x80, 0x9F⟩
  else if 0xE1 ≤ b ∧ b ≤ 0xEF then some ⟨b - 0xE0, 2, 0x80, 0xBF⟩
  else if b = 0xF0 then some ⟨0, 3, 0x90, 0xBF⟩
  else if 0xF1 ≤ b ∧ b ≤ 0xF3 then some ⟨b - 0xF0, 3, 0x80, 0xBF⟩
  else if b = 0xF4 then some ⟨4, 3, 0x80, 0x8F⟩
  else none

/-- The characters of some bytes, read while `held` is in the making. -/
def decodeFrom (held : Option Partial) : List UInt8 → List Char
  | [] => if held.isSome then [replacement] else []
  | byte :: rest =>
    let b := byte.toNat
    let fresh (before : List Char) : List Char :=
      if b < 0x80 then before ++ Char.ofNat b :: decodeFrom none rest
      else
        match expects b with
        | some p => before ++ decodeFrom (some p) rest
        | none => before ++ replacement :: decodeFrom none rest
    match held with
    | none => fresh []
    | some p =>
      if p.low ≤ b ∧ b ≤ p.high then
        let bits := p.bits * 64 + (b - 0x80)
        if p.owed ≤ 1 then Char.ofNat bits :: decodeFrom none rest
        else decodeFrom (some ⟨bits, p.owed - 1, 0x80, 0xBF⟩) rest
      else fresh [replacement]

/-- The text of some bytes. -/
def decode (bytes : List UInt8) : List Char :=
  decodeFrom none bytes

end Parley.Text.Lossy
