import HardwareSigner.Client.Program
import HardwareSigner.Curve.System
import HardwareSigner.Transaction.Chunk
import HardwareSigner.Transaction.Sighash

/-!
Signatures of a transaction, one per input, in the order in which the device gives them. Each is
checked against the hash and the key of its input before it is handed on. An error ends the
sequence, and so does the signature after which the device has no more.
-/

namespace HardwareSigner

/-- A signature that passed every check. -/
structure InputSignature where
  inputIndex : UInt8
  scheme : SignatureScheme
  signature : Bytes
  recoveryId : UInt8
  sighash : Block 32
  deriving DecidableEq

structure SignatureStream where
  system : SignatureSystem
  tx : Transaction
  /-- The compressed key of each input. -/
  keys : List (Block 33)
  /-- An answer that is not looked at yet. -/
  pending : Option TxSignature
  /-- Which inputs have their signature. -/
  seen : List Bool
  received : Nat
  finished : Bool
  /-- Milliseconds the device has for an answer. -/
  requestTimeout : Nat

namespace SignatureStream

def ofFirst (system : SignatureSystem) (tx : Transaction) (keys : List (Block 33))
    (requestTimeout : Nat) (first : TxSignature) : SignatureStream :=
  ⟨system, tx, keys, some first, tx.inputs.map fun _ => false, 0, false, requestTimeout⟩

def expected (s : SignatureStream) : Nat := s.seen.length

def keyOf (s : SignatureStream) (i : UInt8) : Except ClientError (Block 33) :=
  match s.seen[i.toNat]?, s.keys[i.toNat]? with
  | some false, some key => .ok key
  | some true, _ => .error (.duplicateSignature i)
  | _, _ => .error (.unexpectedInputIndex i)

def inspect (s : SignatureStream) (r : TxSignature) (key : Block 33) :
    Except ClientError InputSignature := do
  let hash ← s.tx.sighash r.inputIndex.toNat key r.scheme
  if hash ≠ r.sighash then throw (.sighashMismatch r.inputIndex)
  if !s.system.verify r.scheme key r.signature hash then throw (.invalidSignature r.inputIndex)
  pure ⟨r.inputIndex, r.scheme, r.signature, r.recoveryId, hash⟩

def check (s : SignatureStream) (r : TxSignature) : Except ClientError InputSignature := do
  let key ← s.keyOf r.inputIndex
  s.inspect r key

def accept (s : SignatureStream) (r : TxSignature) : SignatureStream :=
  { s with
    seen := s.seen.set r.inputIndex.toNat true
    received := s.received + 1
    finished := !r.hasMore }

def advance (s : SignatureStream) (r : Except ClientError TxSignature) :
    Except ClientError InputSignature × SignatureStream :=
  match r with
  | .error e => (.error e, { s with finished := true })
  | .ok r =>
    match s.check r with
    | .error e => (.error e, { s with finished := true })
    | .ok signature => (.ok signature, s.accept r)

/-- Asks for the next signature, unless every input has one. -/
def fetch (s : SignatureStream) : Exchange TxSignature := do
  if s.expected ≤ s.received then throw (.tooManySignatures s.expected)
  let f ← Exchange.liftWire (Frame.ofStep NextSignatureQuery.mk .nextSignature .last)
  let data ← Exchange.request s.requestTimeout f
  let (r, _) ← Exchange.liftWire (TxSignature.read.decode data)
  pure r

/-- The next signature; none once the sequence has ended. -/
def next (s : SignatureStream) :
    Program (Option (Except ClientError InputSignature) × SignatureStream) :=
  if s.finished then .done (none, s)
  else
    match s.pending with
    | some r =>
      let (x, s) := { s with pending := none }.advance (.ok r)
      .done (some x, s)
    | none => s.fetch.run.bind fun r =>
      let (x, s) := s.advance r
      .done (some x, s)

def nextMany : Nat → SignatureStream →
    Program (List (Option (Except ClientError InputSignature) × Nat) × SignatureStream)
  | 0, s => .done ([], s)
  | n + 1, s => s.next.bind fun (x, s) => (nextMany n s).bind fun (xs, t) =>
    .done ((x, s.received) :: xs, t)

/-- Every signature to the end; `fuel` bounds the calls. -/
def gather : Nat → SignatureStream → Exchange (List InputSignature)
  | 0, _ => pure []
  | fuel + 1, s => do
    match ← ExceptT.lift s.next with
    | (none, _) => pure []
    | (some (.error e), _) => throw e
    | (some (.ok signature), s) =>
      let rest ← gather fuel s
      pure (signature :: rest)

/-- All signatures, in the order of the inputs, and the link given back. One call more than there
are inputs ends the sequence. -/
def collect (s : SignatureStream) : Exchange (List InputSignature) := Exchange.releasing do
  let signatures ← gather (s.expected + 2) s
  if signatures.length ≠ s.expected then
    throw (.missingSignatures s.expected signatures.length)
  pure (signatures.mergeSort fun a b => a.inputIndex ≤ b.inputIndex)

def drop (_ : SignatureStream) : Program Unit := .free

end SignatureStream

end HardwareSigner
