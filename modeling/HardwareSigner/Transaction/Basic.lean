import HardwareSigner.Path
import HardwareSigner.Error
import HardwareSigner.Record.Transaction

/-!
Transactions as a wallet hands them over for signing, within the bounds of the wire: a version
the protocol knows, and between one and 255 inputs and outputs.
-/

namespace HardwareSigner

structure TransactionInput where
  value : UInt64
  previousTxId : Block 32
  addressType : UInt8
  addressIndex : UInt32
  /-- Which output of the previous transaction is spent. -/
  inputIndex : UInt32
  /-- The key of the address, where it is known already. -/
  publicKey : Option (Block 33)
  deriving DecidableEq

namespace TransactionInput

/-- The path of the key that owns this input. -/
def path (i : TransactionInput) : DerivationPath :=
  .address defaultAccount i.addressType i.addressIndex

def toRecord (i : TransactionInput) : TxInput :=
  ⟨i.value, i.previousTxId, i.addressType, i.addressIndex, i.inputIndex⟩

def ofRecord (i : TxInput) : TransactionInput :=
  ⟨i.value, i.previousTxId, i.addressType, i.addressIndex, i.inputIndex, none⟩

end TransactionInput

structure TransactionOutput where
  value : UInt64
  script : Bytes
  length_script : script.length ≤ 255
  deriving DecidableEq

namespace TransactionOutput

def ofParts (value : UInt64) (script : Bytes) : Except ClientError TransactionOutput :=
  if h : script.length ≤ 255 then .ok ⟨value, script, h⟩
  else .error (.scriptTooLong script.length)

def toRecord (o : TransactionOutput) : TxOutput := ⟨o.value, o.script⟩

def ofRecord (o : TxOutput) : Except ClientError TransactionOutput := ofParts o.value o.script

end TransactionOutput

structure Transaction where
  version : UInt16
  inputs : List TransactionInput
  outputs : List TransactionOutput
  change : Option ChangeAddress
  version_le : version.toNat ≤ maxVersion
  inputs_le : inputs.length ≤ 255
  outputs_le : outputs.length ≤ 255
  inputs_ne : inputs ≠ []
  outputs_ne : outputs ≠ []
  deriving DecidableEq

namespace Transaction

/-- A transaction without a change address; the first bound that is broken is the error. -/
def ofParts (version : UInt16) (inputs : List TransactionInput)
    (outputs : List TransactionOutput) : Except ClientError Transaction :=
  if hv : version.toNat ≤ maxVersion then
    if hi : inputs.length ≤ 255 then
      if ho : outputs.length ≤ 255 then
        if hin : inputs ≠ [] then
          if hon : outputs ≠ [] then
            .ok ⟨version, inputs, outputs, none, hv, hi, ho, hin, hon⟩
          else .error .noOutputs
        else .error .noInputs
      else .error (.tooManyOutputs outputs.length)
    else .error (.tooManyInputs inputs.length)
  else .error (.invalidVersion version)

def InBounds (version : UInt16) (inputs : List TransactionInput)
    (outputs : List TransactionOutput) : Prop :=
  version.toNat ≤ maxVersion ∧ inputs.length ≤ 255 ∧ outputs.length ≤ 255 ∧ inputs ≠ [] ∧
    outputs ≠ []

instance (version : UInt16) (inputs : List TransactionInput) (outputs : List TransactionOutput) :
    Decidable (InBounds version inputs outputs) :=
  inferInstanceAs (Decidable (_ ∧ _ ∧ _ ∧ _ ∧ _))

/-- A transaction whose parts are written out, so that their bounds can be computed. -/
def ofInBounds (version : UInt16) (inputs : List TransactionInput)
    (outputs : List TransactionOutput) (change : Option ChangeAddress)
    (h : InBounds version inputs outputs := by decide) : Transaction :=
  ⟨version, inputs, outputs, change, h.1, h.2.1, h.2.2.1, h.2.2.2.1, h.2.2.2.2⟩

@[simp] theorem inputs_ofInBounds {version : UInt16} {inputs : List TransactionInput}
    {outputs : List TransactionOutput} {change : Option ChangeAddress}
    (h : InBounds version inputs outputs) :
    (ofInBounds version inputs outputs change h).inputs = inputs := rfl

@[simp] theorem outputs_ofInBounds {version : UInt16} {inputs : List TransactionInput}
    {outputs : List TransactionOutput} {change : Option ChangeAddress}
    (h : InBounds version inputs outputs) :
    (ofInBounds version inputs outputs change h).outputs = outputs := rfl

/-- Declares the address that the second output pays back to. -/
def withChange (tx : Transaction) (change : Option ChangeAddress) : Transaction :=
  { tx with change }

def inputTotal (tx : Transaction) : Nat :=
  tx.inputs.foldl (fun total i => total + i.value.toNat) 0

def outputTotal (tx : Transaction) : Nat :=
  tx.outputs.foldl (fun total o => total + o.value.toNat) 0

def header (tx : Transaction) : TxHeader :=
  ⟨tx.version, UInt8.ofNat tx.outputs.length, UInt8.ofNat tx.inputs.length, tx.change⟩

end Transaction

end HardwareSigner
