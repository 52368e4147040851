import HardwareSigner.Transaction.Basic

/-!
The serial form of a transaction: header, outputs, inputs. Whether a change address is part of
the header shows only in the frame that carries it, so serial bytes that can be read both ways
are refused, while the payloads of an exchange can be read in one way alone.
-/

namespace HardwareSigner

namespace TransactionInput

def serialize (i : TransactionInput) : Bytes := i.toRecord.layout

def deserialize (b : Bytes) : Except ClientError TransactionInput := do
  let r ← ClientError.liftWire (TxInput.read.decodeAll b)
  pure (ofRecord r)

end TransactionInput

namespace TransactionOutput

def serialize (o : TransactionOutput) : Bytes :=
  Bytes.ofUInt64BE o.value ++ UInt8.ofNat o.script.length :: o.script

@[simp] theorem encode_toRecord (o : TransactionOutput) : o.toRecord.encode = .ok o.serialize := by
  simp [toRecord, TxOutput.encode, Bytes.lengthPrefixed, o.length_script, serialize, bind,
    Except.bind, pure, Except.pure]

def deserialize (b : Bytes) : Except ClientError TransactionOutput := do
  let r ← ClientError.liftWire (TxOutput.read.decodeAll b)
  ofRecord r

end TransactionOutput

namespace Transaction

def serialize (tx : Transaction) : Bytes :=
  tx.header.layout ++ tx.outputs.flatMap (·.serialize) ++ tx.inputs.flatMap (·.serialize)

def readBody (h : TxHeader) : Reader (List TxOutput × List TxInput) := do
  let outputs ← TxOutput.read.times h.numOutputs.toNat
  let inputs ← TxInput.read.times h.numInputs.toNat
  pure (outputs, inputs)

/-- The transaction with this header whose outputs and inputs are exactly these bytes. -/
def ofHeader (h : TxHeader) (body : Bytes) : Except ClientError Transaction := do
  let (outputs, inputs) ← ClientError.liftWire ((readBody h).decodeAll body)
  let outputs ← outputs.mapM TransactionOutput.ofRecord
  let tx ← ofParts h.version (inputs.map TransactionInput.ofRecord) outputs
  pure (tx.withChange h.change)

def ofSplit? (n : Nat) (b : Bytes) : Option Transaction :=
  if b.length < n then none
  else
    match TxHeader.read.decodeAll (b.take n) with
    | .error _ => none
    | .ok h => (ofHeader h (b.drop n)).toOption

def deserialize (b : Bytes) : Except ClientError Transaction :=
  match ofSplit? TxHeader.shortLength b, ofSplit? TxHeader.longLength b with
  | some _, some _ => .error (.wire .invalidEncoding)
  | some tx, none => .ok tx
  | none, some tx => .ok tx
  | none, none => .error (.wire .invalidLength)

/-- The transaction behind the payloads of an exchange, the first of which is the header. -/
def ofPayloads : List Bytes → Except ClientError Transaction
  | [] => .error (.wire .invalidLength)
  | start :: rest => do
    let h ← ClientError.liftWire (TxHeader.read.decodeAll start)
    ofHeader h rest.flatten

end Transaction

end HardwareSigner
