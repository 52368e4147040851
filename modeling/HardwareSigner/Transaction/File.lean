import HardwareSigner.Json.Record
import HardwareSigner.Json.Writer
import HardwareSigner.Transaction.Basic

/-!
Unsigned transactions as JSON files. Amounts are numbers and bytes are hexadecimal strings. The
version and an address type may be left out and are zero then; the change address may be left
out or be null.
-/

namespace HardwareSigner

structure TxFile where
  version : UInt16
  inputs : List TxInput
  outputs : List TxOutput
  change : Option ChangeAddress
  deriving DecidableEq

namespace TxFile

structure InputDraft where
  value : Option UInt64 := none
  previousTxId : Option (Block 32) := none
  addressType : Option UInt8 := none
  addressIndex : Option UInt32 := none
  inputIndex : Option UInt32 := none

def InputDraft.complete (d : InputDraft) : Option TxInput := do
  pure ⟨← d.value, ← d.previousTxId, d.addressType.getD 0, ← d.addressIndex, ← d.inputIndex⟩

def inputFields : List (Json.Field InputDraft) :=
  [.of "value" (·.value) (fun d v => { d with value := some v }) Json.uint64,
    .of "previous_tx_id" (·.previousTxId) (fun d v => { d with previousTxId := some v })
      (Json.hexBlock 32),
    .of "address_type" (·.addressType) (fun d v => { d with addressType := some v }) Json.uint8,
    .of "address_index" (·.addressIndex) (fun d v => { d with addressIndex := some v })
      Json.uint32,
    .of "input_index" (·.inputIndex) (fun d v => { d with inputIndex := some v }) Json.uint32]

def readInput : Json.TextReader TxInput := Json.record inputFields {} InputDraft.complete

structure OutputDraft where
  value : Option UInt64 := none
  script : Option Bytes := none

def OutputDraft.complete (d : OutputDraft) : Option TxOutput := do
  pure ⟨← d.value, ← d.script⟩

def outputFields : List (Json.Field OutputDraft) :=
  [.of "value" (·.value) (fun d v => { d with value := some v }) Json.uint64,
    .of "script_public_key" (·.script) (fun d v => { d with script := some v }) Json.hexString]

def readOutput : Json.TextReader TxOutput := Json.record outputFields {} OutputDraft.complete

structure ChangeDraft where
  addressType : Option UInt8 := none
  addressIndex : Option UInt32 := none

def ChangeDraft.complete (d : ChangeDraft) : Option ChangeAddress := do
  pure ⟨← d.addressType, ← d.addressIndex⟩

def changeFields : List (Json.Field ChangeDraft) :=
  [.of "address_type" (·.addressType) (fun d v => { d with addressType := some v }) Json.uint8,
    .of "address_index" (·.addressIndex) (fun d v => { d with addressIndex := some v })
      Json.uint32]

def readChange : Json.TextReader ChangeAddress := Json.record changeFields {} ChangeDraft.complete

structure Draft where
  version : Option UInt16 := none
  inputs : Option (List TxInput) := none
  outputs : Option (List TxOutput) := none
  /-- Whether there is a change address, once that is known. -/
  change : Option (Option ChangeAddress) := none

def Draft.complete (d : Draft) : Option TxFile := do
  pure ⟨d.version.getD 0, ← d.inputs, ← d.outputs, d.change.getD none⟩

def fields : List (Json.Field Draft) :=
  [.of "version" (·.version) (fun d v => { d with version := some v }) Json.uint16,
    .of "inputs" (·.inputs) (fun d v => { d with inputs := some v }) (Json.list readInput),
    .of "outputs" (·.outputs) (fun d v => { d with outputs := some v }) (Json.list readOutput),
    .of "change" (·.change) (fun d v => { d with change := some v }) (Json.nullable readChange)]

def parse (cs : List Char) : Option TxFile := Json.whole (Json.record fields {} Draft.complete) cs

def inputText (i : TxInput) : List Char := Json.members
  [("value", Json.number i.value.toNat), ("previous_tx_id", Json.hexText i.previousTxId.bytes),
    ("address_type", Json.number i.addressType.toNat),
    ("address_index", Json.number i.addressIndex.toNat),
    ("input_index", Json.number i.inputIndex.toNat)]

def outputText (o : TxOutput) : List Char := Json.members
  [("value", Json.number o.value.toNat), ("script_public_key", Json.hexText o.script)]

def changeText (c : ChangeAddress) : List Char := Json.members
  [("address_type", Json.number c.addressType.toNat),
    ("address_index", Json.number c.addressIndex.toNat)]

/-- The text of a file with every field in order and no blanks. -/
def text (f : TxFile) : List Char := Json.members
  [("version", Json.number f.version.toNat), ("inputs", Json.items (f.inputs.map inputText)),
    ("outputs", Json.items (f.outputs.map outputText)),
    ("change", (f.change.map changeText).getD Json.null)]

/-- The transaction that is to be signed, with no keys yet. -/
def toTransaction (f : TxFile) : Except ClientError Transaction := do
  let outputs ← f.outputs.mapM TransactionOutput.ofRecord
  let tx ← Transaction.ofParts f.version (f.inputs.map TransactionInput.ofRecord) outputs
  pure (tx.withChange f.change)

end TxFile

end HardwareSigner
