import HardwareSigner.Path
import HardwareSigner.Status
import HardwareSigner.Record.Transaction

/-!
A transaction while its frames arrive: the header with the declared counts, then outputs, then
inputs. What it spends is judged when the last input is there.
-/

namespace HardwareSigner

structure StagedTx where
  header : TxHeader
  outputs : List TxOutput
  inputs : List TxInput
  deriving DecidableEq

namespace StagedTx

/-- A device takes one or two outputs and up to fifteen inputs; change needs the second output. -/
def accepts (h : TxHeader) : Bool :=
  h.version.toNat ≤ maxVersion &&
    (1 ≤ h.numOutputs.toNat && h.numOutputs.toNat ≤ maxOutputs) &&
    (1 ≤ h.numInputs.toNat && h.numInputs.toNat ≤ maxInputs) &&
    match h.change with
    | none => true
    | some c => h.numOutputs.toNat = maxOutputs && c.addressType ≤ changeAddress

def start (data : Bytes) : Except StatusWord StagedTx :=
  match TxHeader.read.decodeAll data with
  | .error _ => .error .txParsingFail
  | .ok h => if accepts h then .ok ⟨h, [], []⟩ else .error .txParsingFail

/-- Outputs come before inputs and no more of them than declared. -/
def pushOutput (tx : StagedTx) (data : Bytes) : Except StatusWord StagedTx :=
  if !tx.inputs.isEmpty then .error .badState
  else if tx.header.numOutputs.toNat ≤ tx.outputs.length then .error .txParsingFail
  else
    match TxOutput.read.decodeAll data with
    | .error _ => .error .txParsingFail
    | .ok o => .ok { tx with outputs := tx.outputs ++ [o] }

/-- Inputs come after all outputs; the one marked as last has to complete their number. -/
def pushInput (tx : StagedTx) (data : Bytes) (last : Bool) : Except StatusWord StagedTx :=
  if tx.outputs.length ≠ tx.header.numOutputs.toNat then .error .badState
  else if tx.header.numInputs.toNat ≤ tx.inputs.length then .error .txParsingFail
  else
    match TxInput.read.decodeAll data with
    | .error _ => .error .txParsingFail
    | .ok i =>
      if changeAddress < i.addressType then .error .txParsingFail
      else if last && tx.inputs.length + 1 ≠ tx.header.numInputs.toNat then .error .txParsingFail
      else .ok { tx with inputs := tx.inputs ++ [i] }

def inputTotal (tx : StagedTx) : Nat := tx.inputs.foldl (fun total i => total + i.value.toNat) 0

def outputTotal (tx : StagedTx) : Nat := tx.outputs.foldl (fun total o => total + o.value.toNat) 0

def checkFee (tx : StagedTx) : Except StatusWord Unit :=
  if tx.outputTotal ≤ tx.inputTotal then .ok () else .error .txParsingFail

def checkChange (tx : StagedTx) (script : Bytes) : Except StatusWord Unit :=
  match tx.outputs[1]? with
  | some o => if o.script = script then .ok () else .error .txParsingFail
  | none => .error .txParsingFail

end StagedTx

end HardwareSigner
