import HardwareSigner.Error
import HardwareSigner.Hash.Blake2b
import HardwareSigner.Record.Message

/-!
Personal messages: a text that fits one frame, and the address whose key signs it.
-/

namespace HardwareSigner

structure PersonalMessage where
  text : String
  length_text : (Bytes.ofText text).length ≤ maxFramedMessage
  addressType : UInt8
  addressIndex : UInt32
  account : UInt32
  deriving DecidableEq

namespace PersonalMessage

/-- A message for an address of the default account. -/
def ofText (text : String) (addressType : UInt8) (addressIndex : UInt32) :
    Except ClientError PersonalMessage :=
  if h : (Bytes.ofText text).length ≤ maxFramedMessage then
    .ok ⟨text, h, addressType, addressIndex, defaultAccount⟩
  else .error (.messageTooLong (Bytes.ofText text).length)

def withAccount (m : PersonalMessage) (account : UInt32) : PersonalMessage := { m with account }

def bytes (m : PersonalMessage) : Bytes := Bytes.ofText m.text

def path (m : PersonalMessage) : DerivationPath :=
  .address m.account m.addressType m.addressIndex

def signingKey : Bytes := Bytes.ofText "PersonalMessageSigningHash"

def digest (message : Bytes) : Block 32 := Blake2b.keyed signingKey message

def hash (m : PersonalMessage) : Block 32 := digest m.bytes

def toRecord (m : PersonalMessage) : MessageRequest :=
  ⟨m.addressType, m.addressIndex, m.account, m.bytes⟩

def serialize (m : PersonalMessage) : Bytes :=
  m.addressType :: (Bytes.ofUInt32BE m.addressIndex ++ Bytes.ofUInt32BE m.account ++
    UInt8.ofNat m.bytes.length :: m.bytes)

@[simp] theorem encode_toRecord (m : PersonalMessage) : m.toRecord.encode = .ok m.serialize := by
  have h : m.bytes.length ≤ 255 := Nat.le_trans m.length_text (by decide)
  simp [toRecord, MessageRequest.encode, Bytes.lengthPrefixed, h, serialize, bind, Except.bind,
    pure, Except.pure]

/-- The whole of the bytes is the record, its message is text and fits a frame. -/
def deserialize (b : Bytes) : Except ClientError PersonalMessage := do
  let r ← ClientError.liftWire (MessageRequest.read.decodeAll b)
  match Bytes.toText? r.message with
  | none => throw (.wire .invalidEncoding)
  | some text =>
    let m ← ofText text r.addressType r.addressIndex
    pure (m.withAccount r.account)

end PersonalMessage

end HardwareSigner
