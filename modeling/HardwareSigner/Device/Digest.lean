import HardwareSigner.Hash.Blake2b
import HardwareSigner.Device.Staging

/-!
The hashes a device signs, taken in field by field while it goes over the staged transaction.
-/

namespace HardwareSigner.Device

open Blake2b (Hasher)

/-- The script of an output that the owner of a first coordinate spends. -/
def p2pkScript (xOnly : Block 32) : Bytes := 0x20 :: (xOnly.bytes ++ [0xac])

def hasher (key : String) : Except StatusWord Hasher :=
  match Hasher.ofKey? (Bytes.ofText key) with
  | some h => .ok h
  | none => .error .txHashFail

def txHasher : Except StatusWord Hasher := hasher "TransactionSigningHash"

def messageHash (message : Bytes) : Except StatusWord (Block 32) := do
  let h ← hasher "PersonalMessageSigningHash"
  pure (h.update message).finish

def hashOutpoint (h : Hasher) (i : TxInput) : Hasher :=
  (h.update i.previousTxId.bytes).update (Bytes.ofUInt32LE i.inputIndex)

def hashScript (h : Hasher) (script : Bytes) : Hasher :=
  ((h.update (Bytes.ofUInt16LE 0)).update (Bytes.ofNatLE 8 script.length)).update script

def hashOutput (h : Hasher) (o : TxOutput) : Hasher :=
  hashScript (h.update (Bytes.ofUInt64LE o.value)) o.script

def sighash (tx : StagedTx) (index : Nat) (xOnly : Block 32) : Except StatusWord (Block 32) :=
  match tx.inputs[index]? with
  | none => .error .txHashFail
  | some i => do
    let empty ← txHasher
    let previousOutputs := tx.inputs.foldl hashOutpoint empty
    let sequences := tx.inputs.foldl (fun h _ => h.update (Bytes.ofUInt64LE 0)) empty
    let sigOpCounts := tx.inputs.foldl (fun h _ => h.update [1]) empty
    let outputs := tx.outputs.foldl hashOutput empty
    let h := empty.update (Bytes.ofUInt16LE tx.header.version)
    let h := h.update previousOutputs.finish.bytes
    let h := h.update sequences.finish.bytes
    let h := h.update sigOpCounts.finish.bytes
    let h := hashOutpoint h i
    let h := hashScript h (p2pkScript xOnly)
    let h := h.update (Bytes.ofUInt64LE i.value)
    let h := h.update (Bytes.ofUInt64LE 0)
    let h := h.update [1]
    let h := h.update outputs.finish.bytes
    -- lock time, subnetwork, gas, payload hash
    let h := h.update (List.replicate 68 0)
    pure (h.update [1]).finish

end HardwareSigner.Device
