import OpenabPty.Basic

/-!
# The admin verifier (`admin_auth.rs`)

The text form of the one credential hash the runtime is started with. Config validation and
the authenticator read it with the same function.
-/

namespace OpenabPty

/-- A text, as its characters. -/
abbrev Text := List Char

/-- `str::strip_prefix`. -/
def stripPrefix (p s : Text) : Option Text :=
  if p.isPrefixOf s then some (s.drop p.length) else none

/-- A digit that the verifier format allows: `0`–`9` and `a`–`f`. -/
def isLowerHex (c : Char) : Bool := c.isDigit || ('a' ≤ c && c ≤ 'f')

/-- The value of a hexadecimal digit, of either case. -/
def hexDigitValue (c : Char) : Option Nat :=
  if c.isDigit then some (c.toNat - 0x30)
  else if 'a' ≤ c ∧ c ≤ 'f' then some (c.toNat - 0x61 + 10)
  else if 'A' ≤ c ∧ c ≤ 'F' then some (c.toNat - 0x41 + 10)
  else none

/-- `hex::decode`. -/
def decodeHex : Text → Option (List UInt8)
  | [] => some []
  | [_] => none
  | a :: b :: rest => do
    let hi ← hexDigitValue a
    let lo ← hexDigitValue b
    let bytes ← decodeHex rest
    return UInt8.ofNat (hi * 16 + lo) :: bytes

/-- `parse_verifier_hash`: the 32 bytes of the verifier. -/
def parseVerifierHash (value : Text) : Except Error (List UInt8) :=
  match stripPrefix "sha256:".toList value with
  | none => .error (.config "admin_credential_hash must start with sha256:")
  | some hexHash =>
    if hexHash.length ≠ 64 ∨ !hexHash.all isLowerHex then
      .error (.config
        "admin_credential_hash must be sha256: followed by exactly 64 lowercase hex characters")
    else
      match decodeHex hexHash with
      | none => .error (.config "invalid admin_credential_hash hex")
      | some decoded =>
        if decoded.length = 32 then .ok decoded
        else .error (.config "invalid admin_credential_hash length")

end OpenabPty
