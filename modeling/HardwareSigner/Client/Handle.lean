import HardwareSigner.Client.Approval
import HardwareSigner.Client.Signatures
import HardwareSigner.Message
import HardwareSigner.Record.Response

/-!
The operations of a wallet on a device. Queries hold the link for one exchange. What needs the
operator keeps the link from its last frame on, and a transaction from its first frame on.
-/

namespace HardwareSigner

structure HandleConfig where
  /-- Milliseconds the device has for an answer of its own. -/
  requestTimeout : Nat := 2000
  /-- Milliseconds the operator has, if there is a bound. -/
  userTimeout : Option Nat := none

structure Handle where
  system : SignatureSystem
  config : HandleConfig

structure SignedMessage where
  signature : Bytes
  hash : Block 32
  deriving DecidableEq

namespace Completion

def decodeKey (data : Bytes) : Except ClientError PublicKey :=
  match PublicKey.read.decode data with
  | .ok (k, _) => .ok k
  | .error e => .error (.wire e)

def publicKey : Completion PublicKey := ⟨decodeKey, false⟩

/-- The device has to have signed this hash with this key. -/
def decodeMessage (system : SignatureSystem) (hash : Block 32) (key : Block 33) (data : Bytes) :
    Except ClientError SignedMessage := do
  let (r, _) ← ClientError.liftWire (MessageSignature.read.decode data)
  if r.messageHash ≠ hash then throw .messageHashMismatch
  if !system.verify .schnorr key r.signature hash then throw .invalidMessageSignature
  pure ⟨r.signature, r.messageHash⟩

def message (system : SignatureSystem) (hash : Block 32) (key : Block 33) :
    Completion SignedMessage :=
  ⟨decodeMessage system hash key, false⟩

/-- The approval carries the first signature. -/
def decodeFirst (system : SignatureSystem) (tx : Transaction) (keys : List (Block 33))
    (requestTimeout : Nat) (data : Bytes) : Except ClientError SignatureStream := do
  let (r, _) ← ClientError.liftWire (TxSignature.read.decode data)
  pure (.ofFirst system tx keys requestTimeout r)

def transaction (system : SignatureSystem) (tx : Transaction) (keys : List (Block 33))
    (requestTimeout : Nat) : Completion SignatureStream :=
  ⟨decodeFirst system tx keys requestTimeout, true⟩

end Completion

namespace Handle

variable {α : Type}

def query [Request α] (h : Handle) (r : α) (p1 : UInt8) : Exchange Bytes := do
  let f ← Exchange.liftWire (Frame.ofRequest r p1 Continuation.last.code)
  Exchange.holding (Exchange.request h.config.requestTimeout f)

def version (h : Handle) : Exchange AppVersion := do
  let data ← h.query VersionQuery.mk 0
  match ← Exchange.liftWire (Response.decode .version data) with
  | .version v => pure v
  | _ => throw .unexpectedResponse

def appName (h : Handle) : Exchange String := do
  let data ← h.query NameQuery.mk 0
  match ← Exchange.liftWire (Response.decode .appName data) with
  | .appName n => pure n.name
  | _ => throw .unexpectedResponse

def appInfo (h : Handle) : Exchange AppInfo := do
  let data ← h.query AppInfoQuery.mk 0
  match ← Exchange.liftWire (Response.decode .appAndVersion data) with
  | .appAndVersion i => pure i
  | _ => throw .unexpectedResponse

def publicKey (h : Handle) (path : DerivationPath) : Exchange PublicKey := do
  let r : PublicKeyRequest := ⟨path, false⟩
  let data ← h.query r r.p1
  Exchange.lift (Completion.decodeKey data)

/-- A frame and its answer, whatever the status. -/
def exchangeRaw (h : Handle) (f : Frame) : Exchange Answer :=
  Exchange.holding (Exchange.answer h.config.requestTimeout f)

def pendingOn (h : Handle) (c : Completion α) : PendingApproval α := ⟨c, h.config.userTimeout⟩

def confirmPublicKey (h : Handle) (path : DerivationPath) :
    Exchange (PendingApproval PublicKey) := do
  let r : PublicKeyRequest := ⟨path, true⟩
  let f ← Exchange.liftWire (Frame.ofRequest r r.p1 Continuation.last.code)
  Exchange.taking do
    Exchange.submit h.config.requestTimeout f
    pure (h.pendingOn .publicKey)

/-- Asks for the key that has to sign, then for the signature. -/
def signMessage (h : Handle) (m : PersonalMessage) : Exchange (PendingApproval SignedMessage) := do
  let key ← h.publicKey m.path
  let f ← Exchange.liftWire (Frame.ofRequest m.toRecord 0 Continuation.last.code)
  Exchange.taking do
    Exchange.submit h.config.requestTimeout f
    pure (h.pendingOn (.message h.system m.hash key.compressed))

/-- The key of each input, from the device where it is not known. -/
def inputKeys (h : Handle) : List TransactionInput → Exchange (List (Block 33))
  | [] => pure []
  | i :: rest => do
    let key ← match i.publicKey with
      | some key => pure key
      | none => PublicKey.compressed <$> h.publicKey i.path
    let keys ← h.inputKeys rest
    pure (key :: keys)

/-- Sends chunks up to the one that ends the exchange; the answer to that one is the operator's. -/
def sendChunks (h : Handle) : List (Except WireError Chunk) → Exchange Unit
  | [] => throw .unexpectedResponse
  | c :: rest => do
    let c ← Exchange.liftWire c
    if c.isTerminal then Exchange.submit h.config.requestTimeout c.frame
    else
      let _ ← Exchange.request h.config.requestTimeout c.frame
      h.sendChunks rest

def signTransaction (h : Handle) (tx : Transaction) :
    Exchange (PendingApproval SignatureStream) := do
  let keys ← h.inputKeys tx.inputs
  Exchange.taking do
    h.sendChunks tx.plan
    pure (h.pendingOn (.transaction h.system tx keys h.config.requestTimeout))

end Handle

end HardwareSigner
