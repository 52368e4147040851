import HardwareSigner.Wire
import HardwareSigner.Code

/-!
Records of a signing exchange: the header with the declared counts, one output or input per
frame, the request for the next signature, and one signature per input.
-/

namespace HardwareSigner

/-- The address that returns what is left to the signer. -/
structure ChangeAddress where
  addressType : UInt8
  addressIndex : UInt32
  deriving DecidableEq

structure TxHeader where
  version : UInt16
  numOutputs : UInt8
  numInputs : UInt8
  change : Option ChangeAddress
  deriving DecidableEq

namespace TxHeader

def shortLength : Nat := 4

def longLength : Nat := 9

def layout (h : TxHeader) : Bytes :=
  Bytes.ofUInt16BE h.version ++ h.numOutputs :: h.numInputs ::
    match h.change with
    | none => []
    | some c => c.addressType :: Bytes.ofUInt32BE c.addressIndex

/-- A change address is there exactly when bytes follow the counts; nothing follows it. -/
def read : Reader TxHeader := do
  let version ← Reader.uint16
  let numOutputs ← Reader.byte
  let numInputs ← Reader.byte
  let rest ← get
  if rest.isEmpty then pure ⟨version, numOutputs, numInputs, none⟩
  else
    let addressType ← Reader.byte
    let addressIndex ← Reader.uint32
    Reader.ending
    pure ⟨version, numOutputs, numInputs, some ⟨addressType, addressIndex⟩⟩

instance : Request TxHeader where
  encode h := .ok h.layout
  read := read
  cla := appClass
  ins := Instruction.signTx.code

end TxHeader

structure TxOutput where
  value : UInt64
  script : Bytes
  deriving DecidableEq

namespace TxOutput

def encode (o : TxOutput) : Except WireError Bytes := do
  let script ← Bytes.lengthPrefixed o.script
  pure (Bytes.ofUInt64BE o.value ++ script)

def read : Reader TxOutput := do
  let value ← Reader.uint64
  let script ← Reader.lengthPrefixed
  pure ⟨value, script⟩

instance : Request TxOutput where
  encode := encode
  read := read
  cla := appClass
  ins := Instruction.signTx.code

end TxOutput

/-- A spent output: its value, where it is, and the address that owns it. -/
structure TxInput where
  value : UInt64
  previousTxId : Block 32
  addressType : UInt8
  addressIndex : UInt32
  /-- Which output of the previous transaction is spent. -/
  inputIndex : UInt32
  deriving DecidableEq

namespace TxInput

def layout (i : TxInput) : Bytes :=
  Bytes.ofUInt64BE i.value ++ i.previousTxId.bytes ++ i.addressType ::
    (Bytes.ofUInt32BE i.addressIndex ++ Bytes.ofUInt32BE i.inputIndex)

def read : Reader TxInput := do
  let value ← Reader.uint64
  let previousTxId ← Reader.block 32
  let addressType ← Reader.byte
  let addressIndex ← Reader.uint32
  let inputIndex ← Reader.uint32
  pure ⟨value, previousTxId, addressType, addressIndex, inputIndex⟩

instance : Request TxInput where
  encode i := .ok i.layout
  read := read
  cla := appClass
  ins := Instruction.signTx.code

end TxInput

structure NextSignatureQuery where
  deriving DecidableEq

instance : Request NextSignatureQuery where
  encode _ := .ok []
  read := pure {}
  cla := appClass
  ins := Instruction.signTx.code

/-- The signature for one input, with the hash the device signed. -/
structure TxSignature where
  /-- Further signatures wait on the device. -/
  hasMore : Bool
  inputIndex : UInt8
  scheme : SignatureScheme
  signature : Bytes
  length_signature : signature.length ≤ maxSignature
  recoveryId : UInt8
  sighash : Block 32
  deriving DecidableEq

namespace TxSignature

def layout (s : TxSignature) : Bytes :=
  (if s.hasMore then 1 else 0) :: s.inputIndex :: s.scheme.code ::
    UInt8.ofNat s.signature.length :: (s.signature ++ s.recoveryId :: s.sighash.bytes)

def readFlag (x : UInt8) : Option Bool :=
  if x = 0 then some false else if x = 1 then some true else none

/-- The four leading bytes are judged before the length of the whole. -/
def read : Reader TxSignature := do
  let flag ← Reader.byte
  let inputIndex ← Reader.byte
  let code ← Reader.byte
  let n ← Reader.byte
  match readFlag flag, SignatureScheme.ofCode? code with
  | some hasMore, some scheme =>
    if n.toNat > maxSignature then Reader.refuse .invalidEncoding
    let signature ← Reader.take n.toNat
    let recoveryId ← Reader.byte
    let sighash ← Reader.block 32
    Reader.ending
    if h : signature.length ≤ maxSignature then
      pure ⟨hasMore, inputIndex, scheme, signature, h, recoveryId, sighash⟩
    else Reader.refuse .invalidEncoding
  | _, _ => Reader.refuse .invalidEncoding

instance : Record TxSignature where
  encode s := .ok s.layout
  read := read

end TxSignature

end HardwareSigner
