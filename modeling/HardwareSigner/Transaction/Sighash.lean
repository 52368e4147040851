import HardwareSigner.Hash.Blake2b
import HardwareSigner.Transaction.Basic

/-!
What a signature for an input commits to. Every word here is least significant byte first. Four
byte strings are hashed on their own and enter the last one as digests.
-/

namespace HardwareSigner

/-- The script of an output that this key spends under the scheme. -/
def spendScript (key : Block 33) : SignatureScheme → Bytes
  | .schnorr => 0x20 :: (key.xOnly.bytes ++ [0xac])
  | .ecdsa => 0x21 :: (key.bytes ++ [0xab])

namespace Transaction

def signingKey : Bytes := Bytes.ofText "TransactionSigningHash"

def previousOutputs (tx : Transaction) : Bytes :=
  tx.inputs.flatMap fun i => i.previousTxId.bytes ++ Bytes.ofUInt32LE i.inputIndex

def sequences (tx : Transaction) : Bytes := tx.inputs.flatMap fun _ => Bytes.ofUInt64LE 0

def sigOpCounts (tx : Transaction) : Bytes := tx.inputs.map fun _ => 1

def outputBytes (tx : Transaction) : Bytes :=
  tx.outputs.flatMap fun o =>
    Bytes.ofUInt64LE o.value ++ Bytes.ofUInt16LE 0 ++ Bytes.ofNatLE 8 o.script.length ++ o.script

/-- The bytes hashed last, with the digests of the four strings as they come. -/
def image (tx : Transaction) (i : TransactionInput) (script : Bytes)
    (previousOutputs sequences sigOpCounts outputs : Block 32) : Bytes :=
  Bytes.ofUInt16LE tx.version ++ previousOutputs.bytes ++ sequences.bytes ++ sigOpCounts.bytes ++
  -- the spent output: where it is, script version, script, value
  i.previousTxId.bytes ++ Bytes.ofUInt32LE i.inputIndex ++ Bytes.ofUInt16LE 0 ++
  Bytes.ofNatLE 8 script.length ++ script ++ Bytes.ofUInt64LE i.value ++
  -- sequence, number of signature operations
  Bytes.ofUInt64LE 0 ++ [1] ++
  outputs.bytes ++
  -- lock time, subnetwork, gas, payload hash, kind of signature hash
  List.replicate 8 0 ++ List.replicate 20 0 ++ List.replicate 8 0 ++ List.replicate 32 0 ++ [1]

def digest (b : Bytes) : Block 32 := Blake2b.keyed signingKey b

def sighash (tx : Transaction) (index : Nat) (key : Block 33) (scheme : SignatureScheme) :
    Except ClientError (Block 32) :=
  match tx.inputs[index]? with
  | none => .error (.unexpectedInputIndex (UInt8.ofNat index))
  | some i =>
    .ok (digest (tx.image i (spendScript key scheme) (digest tx.previousOutputs)
      (digest tx.sequences) (digest tx.sigOpCounts) (digest tx.outputBytes)))

end Transaction

end HardwareSigner
