import HardwareSigner.Buffer.Fields
import HardwareSigner.Record.Response
import HardwareSigner.Frame

/-!
The records in buffers. What is judged before a place is reached is what keeps it in range: mostly
the length of the whole, and then lengths that were read from the bytes themselves.
-/

namespace HardwareSigner

open Buffer

/-! ### Queries -/

@[reducible]
def Codec.empty {α : Type} (r : α) : Codec α where
  size _ := .ok 0
  write _ := pure 0
  parse _ := .ok (r, 0)

instance : Codec VersionQuery := Codec.empty {}
instance : Codec NameQuery := Codec.empty {}
instance : Codec AppInfoQuery := Codec.empty {}
instance : Codec NextSignatureQuery := Codec.empty {}

/-! ### The application -/

instance : Codec AppVersion where
  size _ := .ok 3
  write v := do
    let i ← putAt 0 (putByte v.major)
    let i ← putAt i (putByte v.minor)
    putAt i (putByte v.patch)
  parse b := do
    let (major, i) ← parseAt b 0 parseByte
    let (minor, i) ← parseAt b i parseByte
    let (patch, i) ← parseAt b i parseByte
    pure (⟨major, minor, patch⟩, i)

instance : Codec AppName where
  size r := .ok (Bytes.ofText r.name).length
  write r := do
    let n := (Bytes.ofText r.name).length
    if (← room) < n then refuse .invalidLength
    copy 0 n (Bytes.ofText r.name)
    pure n
  parse b :=
    match Bytes.toText? b with
    | some name => .ok (⟨name⟩, b.length)
    | none => .error .invalidEncoding

namespace AppInfo

def text (b : Bytes) : Outcome WireError String :=
  match Bytes.toText? b with
  | some s => .ok s
  | none => .error .invalidEncoding

def parseText (b : Bytes) : Outcome WireError (String × Nat) := do
  let (d, n) ← parsePrefixed b
  pure (← text d, n)

/-- The fields are written one by one; only the buffer as a whole tells whether they fit. -/
instance : Codec AppInfo where
  size r :=
    .ok (4 + (Bytes.ofText r.name).length + (Bytes.ofText r.version).length + r.flags.length)
  write r := do
    if (← room) = 0 then refuse .invalidLength
    put 0 format
    let i ← putAt 1 (putPrefixed (Bytes.ofText r.name))
    let i ← putAt i (putPrefixed (Bytes.ofText r.version))
    putAt i (putPrefixed r.flags)
  parse b := do
    match b.head? with
    | some f => if f ≠ format then Outcome.error .invalidEncoding
    | none => Outcome.error .invalidLength
    let (name, i) ← parseAt b 1 parseText
    let (version, i) ← parseAt b i parseText
    let (flags, i) ← parseAt b i parsePrefixed
    pure (⟨name, version, flags⟩, i)

end AppInfo

/-! ### Paths and keys -/

namespace DerivationPath

/-- One more step, for which there has to be a place. -/
def push {ε : Type} (p : DerivationPath) (e : UInt32) : Outcome ε DerivationPath :=
  if h : p.elements.length < 10 then
    .ok ⟨p.elements ++ [e], by rw [List.length_append]; exact h⟩
  else .fault .capacity

def root : DerivationPath := ⟨[], Nat.zero_le _⟩

/-- A copy of these steps, for all of which there have to be places. -/
def fill {ε : Type} (es : List UInt32) : Outcome ε DerivationPath :=
  match ofElements es with
  | .ok p => .ok p
  | .error _ => .fault .capacity

/-- Writes steps at their places, from the step of this number on. -/
def writeElements : Nat → List UInt32 → Writer Unit
  | _, [] => pure ()
  | i, e :: es => do
    copy (1 + i * 4) 4 (Bytes.ofUInt32BE e)
    writeElements (i + 1) es

/-- Reads so many more steps behind those of a path. -/
def takeElements (b : Bytes) (p : DerivationPath) : Nat → Outcome WireError DerivationPath
  | 0 => .ok p
  | n + 1 => do
    let e ← word 4 (← upTo (← onFrom b (1 + p.depth * 4)) 4)
    takeElements b (← p.push (UInt32.ofNat e)) n

instance : Codec DerivationPath where
  size p := .ok (1 + p.depth * 4)
  write p := do
    let n := 1 + p.depth * 4
    if (← room) < n then refuse .invalidLength
    put 0 (UInt8.ofNat p.depth)
    writeElements 0 p.elements
    pure n
  parse b := do
    let depth ←
      match b.head? with
      | some d => Outcome.ok d.toNat
      | none => Outcome.error .invalidLength
    if maxDepth < depth then Outcome.error .invalidEncoding
    if b.length < 1 + depth * 4 then Outcome.error .invalidLength
    pure (← takeElements b root depth, 1 + depth * 4)

end DerivationPath

instance : Codec PublicKeyRequest where
  size r := Codec.size r.path
  write r := Codec.write r.path
  parse b := do
    let (path, i) ← parseAt b 0 Codec.parse
    consumed i b
    pure (⟨path, false⟩, i)

instance : Codec PublicKey where
  size _ := .ok PublicKey.layoutLength
  write k := do
    if (← room) < PublicKey.layoutLength then refuse .invalidLength
    put 0 65
    copy 1 65 k.key.bytes
    put 66 32
    copy 67 32 k.chainCode.bytes
    pure PublicKey.layoutLength
  parse b := do
    consumed PublicKey.layoutLength b
    if (← get b 0) != 65 || (← get b 1) != PublicKey.uncompressed || (← get b 66) != 32 then
      Outcome.error .invalidEncoding
    let key ← block 65 (← upTo (← onFrom b 1) 65)
    let chainCode ← block 32 (← upTo (← onFrom b 67) 32)
    pure (⟨key, chainCode⟩, PublicKey.layoutLength)

/-! ### Messages -/

namespace MessageRequest

def size (r : MessageRequest) : Except WireError Nat :=
  if 255 < r.message.length then .error .invalidLength
  else .ok (messageHeaderLength + r.message.length)

instance : Codec MessageRequest where
  size := size
  write r := do
    let n ← StateT.lift (Outcome.of r.size)
    if (← room) < n then refuse .invalidLength
    put 0 r.addressType
    copy 1 4 (Bytes.ofUInt32BE r.addressIndex)
    copy 5 4 (Bytes.ofUInt32BE r.account)
    discard (putAt 9 (putPrefixed r.message))
    pure n
  parse b := do
    if b.length < 9 then Outcome.error .invalidLength
    let (message, i) ← parseAt b 9 parsePrefixed
    let addressType ← get b 0
    let addressIndex ← word 4 (← between b 1 5)
    let account ← word 4 (← between b 5 9)
    pure (⟨addressType, UInt32.ofNat addressIndex, UInt32.ofNat account, message⟩, i)

end MessageRequest

def Buffer.boundedSignature (d : Bytes) :
    Outcome WireError { d : Bytes // d.length ≤ maxSignature } :=
  if h : d.length ≤ maxSignature then .ok ⟨d, h⟩ else .fault .capacity

instance : Codec MessageSignature where
  size s := .ok (1 + s.signature.length + 1 + 32)
  write s := do
    if (← room) < 1 + s.signature.length + 1 + 32 then refuse .invalidLength
    let i ← putAt 0 (putPrefixed s.signature)
    putAt i (putPrefixed s.messageHash.bytes)
  parse b := do
    let (d, i) ← parseAt b 0 parsePrefixed
    if maxSignature < d.length then Outcome.error .invalidEncoding
    let (hash, i) ← parseAt b i parsePrefixed
    if hash.length ≠ 32 then Outcome.error .invalidEncoding
    consumed i b
    let ⟨signature, length_signature⟩ ← boundedSignature d
    let messageHash ← block 32 hash
    pure (⟨signature, length_signature, messageHash⟩, i)

/-! ### Transactions -/

namespace TxHeader

def byteCount (h : TxHeader) : Nat := if h.change.isSome then longLength else shortLength

def parseChange (b : Bytes) : Outcome WireError (Option ChangeAddress) :=
  if b.length = shortLength then .ok none
  else if b.length = longLength then do
    let addressType ← get b 4
    let addressIndex ← word 4 (← between b 5 9)
    pure (some ⟨addressType, UInt32.ofNat addressIndex⟩)
  else .error .invalidLength

instance : Codec TxHeader where
  size h := .ok h.byteCount
  write h := do
    if (← room) < h.byteCount then refuse .invalidLength
    copy 0 2 (Bytes.ofUInt16BE h.version)
    put 2 h.numOutputs
    put 3 h.numInputs
    match h.change with
    | some c =>
      put 4 c.addressType
      copy 5 4 (Bytes.ofUInt32BE c.addressIndex)
    | none => pure ()
    pure h.byteCount
  parse b := do
    let change ← parseChange b
    let version ← word 2 (← between b 0 2)
    let numOutputs ← get b 2
    let numInputs ← get b 3
    pure (⟨UInt16.ofNat version, numOutputs, numInputs, change⟩, b.length)

end TxHeader

namespace TxOutput

def size (o : TxOutput) : Except WireError Nat :=
  if 255 < o.script.length then .error .invalidLength else .ok (8 + 1 + o.script.length)

instance : Codec TxOutput where
  size := size
  write o := do
    let n ← StateT.lift (Outcome.of o.size)
    if (← room) < n then refuse .invalidLength
    copy 0 8 (Bytes.ofUInt64BE o.value)
    discard (putAt 8 (putPrefixed o.script))
    pure n
  parse b := do
    if b.length < 8 then Outcome.error .invalidLength
    let value ← word 8 (← upTo b 8)
    let (script, i) ← parseAt b 8 parsePrefixed
    pure (⟨UInt64.ofNat value, script⟩, i)

end TxOutput

instance : Codec TxInput where
  size _ := .ok 49
  write r := do
    let i ← putAt 0 (putFixed 8 (Bytes.ofUInt64BE r.value))
    let i ← putAt i (putFixed 32 r.previousTxId.bytes)
    let i ← putAt i (putByte r.addressType)
    let i ← putAt i (putFixed 4 (Bytes.ofUInt32BE r.addressIndex))
    putAt i (putFixed 4 (Bytes.ofUInt32BE r.inputIndex))
  parse b := do
    let (value, i) ← parseAt b 0 (parseWord 8)
    let (previousTxId, i) ← parseAt b i (parseBlock 32)
    let (addressType, i) ← parseAt b i parseByte
    let (addressIndex, i) ← parseAt b i (parseWord 4)
    let (inputIndex, i) ← parseAt b i (parseWord 4)
    pure (⟨UInt64.ofNat value, previousTxId, addressType, UInt32.ofNat addressIndex,
      UInt32.ofNat inputIndex⟩, i)

namespace TxSignature

def byteCount (signatureLength : Nat) : Nat := 4 + signatureLength + 1 + 32

instance : Codec TxSignature where
  size s := .ok (byteCount s.signature.length)
  write s := do
    let n := s.signature.length
    if (← room) < byteCount n then refuse .invalidLength
    put 0 (if s.hasMore then 1 else 0)
    put 1 s.inputIndex
    put 2 s.scheme.code
    put 3 (UInt8.ofNat n)
    copy 4 n s.signature
    put (4 + n) s.recoveryId
    copy (5 + n) 32 s.sighash.bytes
    pure (byteCount n)
  parse b := do
    if b.length < 4 then Outcome.error .invalidLength
    let hasMore ←
      match readFlag (← get b 0) with
      | some more => Outcome.ok more
      | none => Outcome.error .invalidEncoding
    let scheme ←
      match SignatureScheme.ofCode? (← get b 2) with
      | some scheme => Outcome.ok scheme
      | none => Outcome.error .invalidEncoding
    let n := (← get b 3).toNat
    if maxSignature < n then Outcome.error .invalidEncoding
    consumed (byteCount n) b
    let ⟨signature, length_signature⟩ ← boundedSignature (← upTo (← onFrom b 4) n)
    let sighash ← block 32 (← upTo (← onFrom b (5 + n)) 32)
    let inputIndex ← get b 1
    let recoveryId ← get b (4 + n)
    pure (⟨hasMore, inputIndex, scheme, signature, length_signature, recoveryId, sighash⟩,
      byteCount n)

end TxSignature

/-! ### Frames and answers -/

namespace Frame

/-- A frame with a copy of this payload, for which there has to be room. -/
def fill (cla ins p1 p2 : UInt8) (data : Bytes) : Outcome WireError Frame :=
  match ofParts cla ins p1 p2 data with
  | .ok f => .ok f
  | .error _ => .fault .capacity

instance : Codec Frame where
  size f := .ok (headerLength + f.data.length)
  write f := do
    let n := headerLength + f.data.length
    if (← room) < n then refuse .invalidLength
    put 0 f.cla
    put 1 f.ins
    put 2 f.p1
    put 3 f.p2
    put 4 (UInt8.ofNat f.data.length)
    copy headerLength (n - headerLength) f.data
    pure n
  parse b := do
    if b.length < headerLength then Outcome.error .invalidLength
    let n := (← get b 4).toNat
    if b.length ≠ headerLength + n then Outcome.error .invalidLength
    let f ← fill (← get b 0) (← get b 1) (← get b 2) (← get b 3) (← onFrom b headerLength)
    pure (f, headerLength + n)

/-- The frame that carries a request record, which is written into a payload of its own. -/
def pack {α : Type} [Request α] [Codec α] (r : α) (p1 p2 : UInt8) : Outcome WireError Frame := do
  let n ← Outcome.of (Codec.size r)
  if maxPayload < n then Outcome.error .invalidLength
  let (n, data) ← Codec.write r (List.replicate n 0)
  fill (Request.cla α) (Request.ins α) p1 p2 (data.take n)

end Frame

instance : Codec Answer where
  size a := .ok (a.data.length + 2)
  write a := do
    let n := a.data.length
    if (← room) < n + 2 then refuse .invalidLength
    copy 0 n a.data
    copy n 2 (Bytes.ofUInt16BE a.status)
    pure (n + 2)
  parse b := do
    if b.length < 2 then Outcome.error .invalidLength
    let n ← minus b.length 2
    let high ← get b n
    let low ← get b (n + 1)
    pure (⟨← upTo b n, UInt16.ofNat (Bytes.toNatBE [high, low])⟩, b.length)

namespace Response

def parse : ResponseKind → Bytes → Outcome WireError Response
  | .version, b => version <$> whole b
  | .appName, b => appName <$> whole b
  | .appAndVersion, b => appAndVersion <$> whole b
  | .publicKey, b => publicKey <$> whole b
  | .txSignature, b => txSignature <$> whole b
  | .messageSignature, b => messageSignature <$> whole b

end Response

end HardwareSigner
