/-!
# Base64

Attachments arrive as base64 in the standard alphabet.  Only the canonical form is read: groups
of four letters, `=` for the letters that the last group lacks and nowhere else, and no bits
left over in a short last group.  So each byte string has one written form.

A text that is not of this form has a `Fault`.  It is looked for where the letters end, but the
length comes before: one byte behind whole groups cannot stand for anything, whatever else is wrong.
-/

namespace Parley.Text.Base64

/-- What is wrong with a text; offsets count its bytes. -/
inductive Fault where
  /-- A byte is no letter, and no `=` in its place. -/
  | letter (byte : UInt8) (offset : Nat)
  /-- One letter is left over. -/
  | length
  /-- The last letter has bits left over. -/
  | lastLetter (byte : UInt8) (offset : Nat)
  /-- The last group is not filled up. -/
  | padding
  deriving DecidableEq, Repr

/-- What is said about a fault. -/
def Fault.message : Fault → String
  | letter byte offset =>
    "Invalid byte " ++ toString byte.toNat ++ ", offset " ++ toString offset ++ "."
  | length => "Encoded text cannot have a 6-bit remainder."
  | lastLetter byte offset =>
    "Invalid last symbol " ++ toString byte.toNat ++ ", offset " ++ toString offset ++ "."
  | padding => "Invalid padding"

/-- The value of a letter of the standard alphabet. -/
def digit? (byte : UInt8) : Option Nat :=
  if 'A'.toUInt8 ≤ byte && byte ≤ 'Z'.toUInt8 then some (byte.toNat - 65)
  else if 'a'.toUInt8 ≤ byte && byte ≤ 'z'.toUInt8 then some (byte.toNat - 97 + 26)
  else if '0'.toUInt8 ≤ byte && byte ≤ '9'.toUInt8 then some (byte.toNat - 48 + 52)
  else if byte = '+'.toUInt8 then some 62
  else if byte = '/'.toUInt8 then some 63
  else none

/-- The byte `=`, which fills up the last group. -/
def filler : UInt8 := '='.toUInt8

/-- The values of the letters that a text starts with. -/
def values : List UInt8 → List Nat
  | [] => []
  | byte :: rest =>
    match digit? byte with
    | some value => value :: values rest
    | none => []

/-- The byte with the value `n` modulo 256. -/
private def byteOf (n : Nat) : UInt8 := UInt8.ofNat n

/-- The bytes that groups of letters stand for. -/
def pack : List Nat → List UInt8
  | x :: y :: z :: w :: rest =>
    byteOf (x * 4 + y / 16) :: byteOf (y * 16 + z / 4) :: byteOf (z * 64 + w) :: pack rest
  | [x, y, z] => [byteOf (x * 4 + y / 16), byteOf (y * 16 + z / 4)]
  | [x, y] => [byteOf (x * 4 + y / 16)]
  | _ => []

/-- Whether a last group of some letters is filled up by what follows them. -/
def isFilled : Nat → List UInt8 → Bool
  | 0, [] => true
  | 2, [a, b] => a = filler && b = filler
  | 3, [a] => a = filler
  | _, _ => false

/-- The fault of a text that has one byte behind whole groups. -/
def overhang (bytes : List UInt8) : Fault :=
  match bytes.getLast? with
  | some byte =>
    if byte = filler || (digit? byte).isSome then .length else .letter byte (bytes.length - 1)
  | none => .length

/-- The bytes that a text stands for. -/
def decode (text : String) : Except Fault (List UInt8) :=
  let bytes := text.toUTF8.toList
  let letters := values bytes
  let short := letters.length % 4
  let rest := bytes.drop letters.length
  if bytes.length % 4 = 1 then .error (overhang bytes)
  else if isFilled short rest then
    -- for each filler the last letter has two bits that no byte takes
    if letters.getLastD 0 % Nat.pow 4 rest.length = 0 then .ok (pack letters)
    else .error (.lastLetter (bytes.getD (letters.length - 1) 0) (letters.length - 1))
  else
    match rest with
    | [] => .error .padding
    | [byte] =>
      if short = 2 && byte = filler then .error .padding else .error (.letter byte letters.length)
    | byte :: _ => .error (.letter byte letters.length)

end Parley.Text.Base64
