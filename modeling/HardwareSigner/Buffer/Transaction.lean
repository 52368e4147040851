import HardwareSigner.Buffer.Records
import HardwareSigner.Transaction.Serial
import HardwareSigner.Message

/-!
Transactions and messages in buffers. Records stand one behind the other, and each is looked for
where the one before it ended.
-/

namespace HardwareSigner

open Buffer

/-- So many values in a row, and the bytes behind them. -/
def Buffer.row {α β : Type} [Codec α] (make : α → Except ClientError β) :
    Nat → Bytes → Outcome ClientError (List β × Bytes)
  | 0, b => .ok ([], b)
  | n + 1, b => do
    let (r, k) ← (Codec.parse b).mapError .wire
    let x ← Outcome.of (make r)
    let (xs, b) ← row make n (← onFrom b k)
    pure (x :: xs, b)

namespace Transaction

/-- The transaction with this header whose outputs and inputs are exactly these bytes. -/
def parseBody (h : TxHeader) (b : Bytes) : Outcome ClientError Transaction := do
  let (outputs, b) ← row TransactionOutput.ofRecord h.numOutputs.toNat b
  let (inputs, b) ← row (fun i => .ok (TransactionInput.ofRecord i)) h.numInputs.toNat b
  if !b.isEmpty then Outcome.error (.wire .invalidLength)
  let tx ← Outcome.of (ofParts h.version inputs outputs)
  pure (tx.withChange h.change)

/-- Tries headers of these lengths, after those that gave `found` or nothing. -/
def parseSplits (b : Bytes) (found : Option Transaction) :
    List Nat → Outcome ClientError Transaction
  | [] => conclude
  | n :: ns =>
    if b.length < n then conclude
    else do
      let (h, _) ← (Codec.parse (← upTo b n)).mapError .wire
      match parseBody h (← onFrom b n) with
      | .ok tx =>
        if found.isSome then .error (.wire .invalidEncoding) else parseSplits b (some tx) ns
      | .error _ => parseSplits b found ns
      | .fault f => .fault f
where
  conclude : Outcome ClientError Transaction :=
    match found with
    | some tx => .ok tx
    | none => .error (.wire .invalidLength)

def parse (b : Bytes) : Outcome ClientError Transaction :=
  parseSplits b none [TxHeader.shortLength, TxHeader.longLength]

def parsePayloads : List Bytes → Outcome ClientError Transaction
  | [] => .error (.wire .invalidLength)
  | start :: rest => do
    let h ← (whole start).mapError .wire
    parseBody h rest.flatten

end Transaction

def PersonalMessage.parse (b : Bytes) : Outcome ClientError PersonalMessage := do
  let r : MessageRequest ← (whole b).mapError .wire
  match Bytes.toText? r.message with
  | none => Outcome.error (.wire .invalidEncoding)
  | some text => do
    let m ← Outcome.of (ofText text r.addressType r.addressIndex)
    pure (m.withAccount r.account)

end HardwareSigner
