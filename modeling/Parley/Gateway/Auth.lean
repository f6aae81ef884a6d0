import Parley.Error
import Parley.Text.Blank

/-!
# The token of the gateway

A gateway with a token accepts a client that shows the same token, byte for byte.  A gateway
without one, or with an empty one, accepts everybody.

Tokens are compared without telling by the time it takes where they differ: of tokens of one
length all bytes are looked at, and what they differ in is gathered (`difference`).  What comes of
it is whether they are equal (`sameToken_iff`).
-/

namespace Parley.Gateway

/-- What the bytes of two tokens differ in, gathered over all of them. -/
def difference (as bs : List UInt8) : UInt8 :=
  (as.zip bs).foldl (fun gathered (a, b) => gathered ||| (a ^^^ b)) 0

/-- Whether two tokens have the same bytes. -/
def sameBytes (as bs : List UInt8) : Bool :=
  if as.length ≠ bs.length then false else difference as bs == 0

/-- Whether two tokens are the same. -/
def sameToken (a b : String) : Bool := sameBytes a.toUTF8.data.toList b.toUTF8.data.toList

/-- What the gateway asks of clients. -/
structure Auth where
  token : Option String

namespace Auth

/-- The requirement that a setting makes. -/
def ofSetting (token : Option String) : Auth := ⟨token.bind String.nonempty?⟩

/-- Whether a client has to show a token. -/
def isRequired (a : Auth) : Bool := a.token.isSome

/-- Check what a client shows. -/
def verify (a : Auth) (shown : Option String) : Except Error Unit :=
  match a.token, shown with
  | none, _ => .ok ()
  | some _, none => .error (.authFailed "token required")
  | some token, some shown =>
    if sameToken token shown then .ok () else .error (.authFailed "invalid token")

end Auth

/-! ## Comparing tokens -/

theorem gather_eq_zero_iff (pairs : List (UInt8 × UInt8)) (gathered : UInt8) :
    pairs.foldl (fun gathered (a, b) => gathered ||| (a ^^^ b)) gathered = 0 ↔
      gathered = 0 ∧ ∀ p ∈ pairs, p.1 = p.2 := by
  induction pairs generalizing gathered with
  | nil => simp
  | cons p pairs ih =>
    rw [List.foldl_cons, ih, List.forall_mem_cons, UInt8.or_eq_zero_iff, UInt8.xor_eq_zero_iff,
      and_assoc]

theorem forall_zip_eq_iff {as bs : List UInt8} (h : as.length = bs.length) :
    (∀ p ∈ as.zip bs, p.1 = p.2) ↔ as = bs := by
  induction as generalizing bs with
  | nil => simp [List.eq_nil_of_length_eq_zero h.symm]
  | cons a as ih =>
    cases bs with
    | nil => cases h
    | cons b bs =>
      rw [List.zip_cons_cons, List.forall_mem_cons, ih (Nat.succ.inj h), List.cons.injEq]

/-- **Tokens have the same bytes just when they are equal.** -/
theorem sameBytes_iff (as bs : List UInt8) : sameBytes as bs = true ↔ as = bs := by
  rw [sameBytes]
  by_cases h : as.length = bs.length
  · rw [if_neg (not_not_intro h), beq_iff_eq, difference, gather_eq_zero_iff, forall_zip_eq_iff h,
      eq_self_iff_true, true_and]
  · simp only [h, ne_eq, not_false_eq_true, if_true, Bool.false_eq_true, false_iff]
    rintro rfl
    exact h rfl

theorem sameToken_iff (a b : String) : sameToken a b = true ↔ a = b := by
  rw [sameToken, sameBytes_iff, Array.toList_inj, ← ByteArray.ext_iff]
  exact String.toByteArray_inj

namespace Auth

/-- A token opens the gateway exactly when none is asked for or it is the one. -/
theorem verify_eq_ok_iff (a : Auth) (shown : Option String) :
    a.verify shown = .ok () ↔ a.token = none ∨ a.token = shown := by
  rcases a with ⟨_ | token⟩ <;> rcases shown with _ | shown <;> simp [verify, sameToken_iff]

end Auth

end Parley.Gateway
