import HardwareSigner.Routine.Basic

/-!
The exercises: what the application says of itself, keys, messages and transactions.
-/

namespace HardwareSigner.Routine

variable {τ : Type} [Transport τ]

def appName : String := "Kaspa"

/-- Both queries for the name and both for the version have to agree. -/
def app (h : Handle) : Routine τ Unit := do
  let version ← exchange h.version
  let name ← exchange h.appName
  expect (name = appName)
  let info ← exchange h.appInfo
  expect (info.name = name)
  expect (info.version = version.text)

/-- The address that keys are asked for: not in a hardened account. -/
def keyPath (index : UInt32) : DerivationPath := .address 0 receiveAddress index

/-- Asks for the keys of so many addresses from an index on. Asking twice gives the same key, and
different addresses have different ones. -/
def distinctKeys (h : Handle) : Nat → UInt32 → List (Block 65) → Routine τ (List (Block 65))
  | 0, _, keys => pure keys
  | n + 1, index, keys => do
    let k ← exchange (h.publicKey (keyPath index))
    let again ← exchange (h.publicKey (keyPath index))
    expect (again = k)
    expect (!keys.contains k.key)
    distinctKeys h n (index + 1) (keys ++ [k.key])

/-- Keys are stable and distinct, and the one that is shown is the one that is told. -/
def publicKeys (h : Handle) (decide : τ → τ) (n : UInt32) : Routine τ Unit := do
  if n = 0 then throw .noKeys
  let keys ← distinctKeys h n.toNat 0 []
  let p ← exchange (h.confirmPublicKey (keyPath 0))
  let k ← decided decide .publicKeyDenied p
  expect (keys.head? = some k.key)

def message (h : Handle) (decide : τ → τ) (text : String) (index : UInt32) :
    Routine τ SignedMessage := do
  let m ← lift (PersonalMessage.ofText text receiveAddress index)
  let p ← exchange (h.signMessage m)
  let s ← decided decide .messageDenied p
  expect (s.hash = m.hash)
  expect (s.signature.length = 64)
  pure s

def inputValue : UInt64 := 1000000

def fee : UInt64 := 10000

def sendValue : UInt64 := 500000

def destinationAccount : UInt32 := 1

/-- The byte that fills the transaction identifier of a generated input. -/
def idByte (a : Arithmetic) (i : Nat) : Routine τ UInt8 := a.add (UInt8.ofNat i) 1

def inputOf (id : UInt8) (i : Nat) : TransactionInput where
  value := inputValue
  previousTxId := .replicate 32 id
  addressType := receiveAddress
  addressIndex := UInt32.ofNat i
  inputIndex := UInt32.ofNat i
  publicKey := none

def generatedInput (a : Arithmetic) (i : Nat) : Routine τ TransactionInput := do
  let id ← idByte a i
  pure (inputOf id i)

def spendable (a : Arithmetic) (n : Nat) : Routine τ UInt64 := do
  let total ← a.mul inputValue (UInt64.ofNat n)
  a.sub total fee

def destinationPath : DerivationPath := .address destinationAccount receiveAddress 0

def changePath (index : UInt32) : DerivationPath := .address 0 changeAddress index

def payTo (h : Handle) (path : DerivationPath) : Routine τ Bytes := do
  let k ← exchange (h.publicKey path)
  pure (spendScript k.compressed .schnorr)

/-- Outputs for what can be spent: all of it goes to the destination, or what is left of it goes
back to an address for change. -/
def payments (h : Handle) (a : Arithmetic) (total : UInt64) (changeIndex : Option UInt32) :
    Routine τ (List TransactionOutput) := do
  let destination ← payTo h destinationPath
  match changeIndex with
  | none =>
    let o ← lift (TransactionOutput.ofParts total destination)
    pure [o]
  | some index =>
    let change ← payTo h (changePath index)
    let paid ← lift (TransactionOutput.ofParts sendValue destination)
    let left ← a.sub total sendValue
    let back ← lift (TransactionOutput.ofParts left change)
    pure [paid, back]

/-- A transaction that spends so many receive addresses, with change if an address is given. Its
bounds are judged last, once every input has been made. -/
def build (h : Handle) (n : Nat) (changeIndex : Option UInt32) (a : Arithmetic := .checked) :
    Routine τ Transaction := do
  if n = 0 then throw .noInputs
  let inputs ← (List.range n).mapM (generatedInput a)
  let total ← spendable a n
  let outputs ← payments h a total changeIndex
  let tx ← lift (Transaction.ofParts 0 inputs outputs)
  pure (tx.withChange (changeIndex.map (⟨changeAddress, ·⟩)))

/-- Signatures are for the inputs in their order, all with the scheme of the device. -/
def inOrder (n : Nat) (signatures : List InputSignature) : Bool :=
  signatures.map (·.inputIndex.toNat) = List.range n &&
    signatures.all fun s => s.scheme = .schnorr

def transaction (h : Handle) (decide : τ → τ) (n : Nat) (changeIndex : Option UInt32)
    (a : Arithmetic := .checked) : Routine τ (List InputSignature) := do
  let tx ← build h n changeIndex a
  let p ← exchange (h.signTransaction tx)
  let s ← decided decide .transactionDenied p
  let signatures ← exchange s.collect
  expect (inOrder n signatures)
  pure signatures

end HardwareSigner.Routine
