import HardwareSigner.Wire
import HardwareSigner.Code

/-!
Records for personal messages: the request, and the signature over the message hash.
-/

namespace HardwareSigner

structure MessageRequest where
  addressType : UInt8
  addressIndex : UInt32
  account : UInt32
  message : Bytes
  deriving DecidableEq

namespace MessageRequest

def encode (r : MessageRequest) : Except WireError Bytes := do
  let message ← Bytes.lengthPrefixed r.message
  pure (r.addressType ::
    (Bytes.ofUInt32BE r.addressIndex ++ Bytes.ofUInt32BE r.account ++ message))

def read : Reader MessageRequest := do
  let addressType ← Reader.byte
  let addressIndex ← Reader.uint32
  let account ← Reader.uint32
  let message ← Reader.lengthPrefixed
  pure ⟨addressType, addressIndex, account, message⟩

instance : Request MessageRequest where
  encode := encode
  read := read
  cla := appClass
  ins := Instruction.signMessage.code

end MessageRequest

/-- A signature over a message hash, and the hash the device signed. -/
structure MessageSignature where
  signature : Bytes
  length_signature : signature.length ≤ maxSignature
  messageHash : Block 32

namespace MessageSignature

def layout (s : MessageSignature) : Bytes :=
  UInt8.ofNat s.signature.length :: (s.signature ++ 32 :: s.messageHash.bytes)

def read : Reader MessageSignature := do
  let signature ← Reader.lengthPrefixed
  if h : signature.length ≤ maxSignature then
    let hash ← Reader.lengthPrefixed
    match Block.ofBytes? 32 hash with
    | none => Reader.refuse .invalidEncoding
    | some hash =>
      Reader.ending
      pure ⟨signature, h, hash⟩
  else Reader.refuse .invalidEncoding

instance : Record MessageSignature where
  encode s := .ok s.layout
  read := read

end MessageSignature

end HardwareSigner
