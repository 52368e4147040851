import HardwareSigner.Path
import HardwareSigner.Status

/-!
What a device takes as a request: which paths it shows keys for, and messages with the address
that is to sign them. Each fault has a status word of its own.
-/

namespace HardwareSigner.Device

/-- Two to five steps under the coin's branch, the fourth of which is a kind of address. -/
def checkPath (p : DerivationPath) : Except StatusWord Unit :=
  if p.depth < 2 || 5 < p.depth then .error .wrongBip32PathLen
  else if p.elements[0]? ≠ some purpose then .error .wrongBip32Purpose
  else if p.elements[1]? ≠ some coinType then .error .wrongBip32CoinType
  else
    match p.elements[3]? with
    | some t => if changeAddress.toUInt32 < t then .error .wrongBip32Type else .ok ()
    | none => .ok ()

structure MessageToSign where
  path : DerivationPath
  message : Bytes
  deriving DecidableEq

def uint32At? (b : Bytes) (offset : Nat) : Option UInt32 :=
  if offset + 4 ≤ b.length then
    some (UInt32.ofNat (Bytes.toNatBE ((b.drop offset).take 4)))
  else none

/-- Reads kind of address, index, account, length and message off their places in the payload. -/
def parseMessage (b : Bytes) (limit : Nat) : Except StatusWord MessageToSign := do
  let addressType ←
    match b[0]? with
    | some t => if t ≤ changeAddress then pure t else throw .messageAddressTypeFail
    | none => throw .messageAddressTypeFail
  let addressIndex ←
    match uint32At? b 1 with
    | some i => pure i
    | none => throw .messageAddressIndexFail
  let account ←
    match uint32At? b 5 with
    | some a => if hardened ≤ a then pure a else throw .messageAddressTypeFail
    | none => throw .messageAddressTypeFail
  let length ←
    match b[9]? with
    | some n => pure n.toNat
    | none => throw .messageLenParsingFail
  if length = 0 then throw .messageTooShort
  if limit < length then throw .messageTooLong
  if b.length < 10 + length then throw .messageParsingFail
  if b.length ≠ 10 + length then throw .messageUnexpected
  match DerivationPath.ofElements
      [purpose, coinType, account, addressType.toUInt32, addressIndex] with
  | .ok path => pure ⟨path, (b.drop 10).take length⟩
  | .error _ => throw .messageParsingFail

end HardwareSigner.Device
