import HardwareSigner.Device.Digest
import HardwareSigner.Message
import HardwareSigner.Proofs.Transaction.Serial
import HardwareSigner.Transaction.Sighash

/-! Two ways to the hash that is signed for an input. A wallet joins all bytes and hashes them at
once; a device takes them in field by field. What a hasher has taken is all that it knows, so both
come to the same digest wherever `StagedTx.Agrees` holds: addresses are not part of it. -/

namespace HardwareSigner

namespace Blake2b.Hasher

theorem update_update (h : Hasher) (a b : Bytes) :
    (h.update a).update b = h.update (a ++ b) := by
  simp only [update, List.append_assoc]

/-- Bytes taken in for one item after the other are taken in joined. -/
theorem foldl_update {α : Type} (f : α → Bytes) (items : List α) (h : Hasher) :
    items.foldl (fun h a => h.update (f a)) h = h.update (items.flatMap f) := by
  induction items generalizing h with
  | nil => simp [update]
  | cons a items ih => rw [List.foldl_cons, ih, update_update, List.flatMap_cons]

end Blake2b.Hasher

/-- What a device holds and what a wallet has signed are the same version, outpoints, values and
outputs. Whose address an input has does not enter. -/
structure StagedTx.Agrees (s : StagedTx) (tx : Transaction) : Prop where
  version : s.header.version = tx.version
  inputs : s.inputs.map (fun i => (i.value, i.previousTxId, i.inputIndex)) =
    tx.inputs.map fun i => (i.value, i.previousTxId, i.inputIndex)
  outputs : s.outputs.map (fun o => (o.value, o.script)) =
    tx.outputs.map fun o => (o.value, o.script)

/-- What is held of a transaction once all its pieces are there. -/
def Transaction.staged (tx : Transaction) : StagedTx :=
  ⟨tx.header, tx.outputs.map TransactionOutput.toRecord,
    tx.inputs.map TransactionInput.toRecord⟩

theorem Transaction.staged_agrees (tx : Transaction) : tx.staged.Agrees tx where
  version := rfl
  inputs := List.map_map
  outputs := List.map_map

namespace Device

open Blake2b (Hasher)

def freshHasher : Hasher := ⟨Transaction.signingKey, by decide, []⟩

theorem txHasher_eq : txHasher = .ok freshHasher := by rfl

theorem finish_freshHasher (b : Bytes) :
    (freshHasher.update b).finish = Transaction.digest b := rfl

theorem hashOutpoint_eq (h : Hasher) (i : TxInput) :
    hashOutpoint h i = h.update (i.previousTxId.bytes ++ Bytes.ofUInt32LE i.inputIndex) :=
  h.update_update _ _

theorem hashOutput_eq (h : Hasher) (o : TxOutput) :
    hashOutput h o = h.update (Bytes.ofUInt64LE o.value ++ Bytes.ofUInt16LE 0 ++
      Bytes.ofNatLE 8 o.script.length ++ o.script) := by
  simp only [hashOutput, hashScript, Hasher.update_update]

theorem foldl_hashOutpoint (inputs : List TxInput) (h : Hasher) : inputs.foldl hashOutpoint h =
    h.update (inputs.flatMap fun i => i.previousTxId.bytes ++ Bytes.ofUInt32LE i.inputIndex) := by
  rw [← Hasher.foldl_update]
  exact congrArg (fun f => inputs.foldl f h) (funext fun h => funext (hashOutpoint_eq h))

theorem foldl_hashOutput (outputs : List TxOutput) (h : Hasher) : outputs.foldl hashOutput h =
    h.update (outputs.flatMap fun o => Bytes.ofUInt64LE o.value ++ Bytes.ofUInt16LE 0 ++
      Bytes.ofNatLE 8 o.script.length ++ o.script) := by
  rw [← Hasher.foldl_update]
  exact congrArg (fun f => outputs.foldl f h) (funext fun h => funext (hashOutput_eq h))

theorem messageHash_eq (message : Bytes) :
    messageHash message = .ok (PersonalMessage.digest message) := by rfl

end Device

namespace StagedTx.Agrees

open Device

variable {s : StagedTx} {tx : Transaction}

theorem length_inputs (h : s.Agrees tx) : s.inputs.length = tx.inputs.length := by
  simpa using congrArg List.length h.inputs

/-- The inputs at one place are of one value and spend one output. -/
theorem input (h : s.Agrees tx) {index : Nat} {i : TransactionInput}
    (hi : tx.inputs[index]? = some i) : ∃ r, s.inputs[index]? = some r ∧ r.value = i.value ∧
      r.previousTxId = i.previousTxId ∧ r.inputIndex = i.inputIndex := by
  have hplace := congrArg (·[index]?) h.inputs
  simp only [List.getElem?_map, hi, Option.map_some, Option.map_eq_some_iff, Prod.mk.injEq]
    at hplace
  obtain ⟨r, hr, hfields⟩ := hplace
  exact ⟨r, hr, hfields⟩

theorem foldl_previousOutputs (h : s.Agrees tx) :
    s.inputs.foldl hashOutpoint freshHasher = freshHasher.update tx.previousOutputs := by
  have hbytes := congrArg (List.flatMap fun (_, txId, place) =>
    Block.bytes txId ++ Bytes.ofUInt32LE place) h.inputs
  simp only [List.flatMap_map] at hbytes
  rw [foldl_hashOutpoint, hbytes]
  rfl

theorem foldl_sequences (h : s.Agrees tx) :
    s.inputs.foldl (fun h _ => h.update (Bytes.ofUInt64LE 0)) freshHasher =
      freshHasher.update tx.sequences := by
  have hbytes := congrArg (List.flatMap fun _ => Bytes.ofUInt64LE 0) h.inputs
  simp only [List.flatMap_map] at hbytes
  rw [Blake2b.Hasher.foldl_update (fun _ => Bytes.ofUInt64LE 0), hbytes]
  rfl

theorem foldl_sigOpCounts (h : s.Agrees tx) :
    s.inputs.foldl (fun h _ => h.update [1]) freshHasher = freshHasher.update tx.sigOpCounts := by
  have hbytes := congrArg (List.map fun _ => (1 : UInt8)) h.inputs
  simp only [List.map_map] at hbytes
  rw [Blake2b.Hasher.foldl_update (fun _ => [1]), ← List.map_eq_flatMap]
  exact congrArg freshHasher.update hbytes

theorem foldl_outputBytes (h : s.Agrees tx) :
    s.outputs.foldl hashOutput freshHasher = freshHasher.update tx.outputBytes := by
  have hbytes := congrArg (List.flatMap fun (value, script) => Bytes.ofUInt64LE value ++
    Bytes.ofUInt16LE 0 ++ Bytes.ofNatLE 8 (List.length script) ++ script) h.outputs
  simp only [List.flatMap_map] at hbytes
  rw [foldl_hashOutput, hbytes]
  rfl

/-- Both come to one hash for an input that is there. -/
theorem sighash_eq (h : s.Agrees tx) {index : Nat} (hindex : index < tx.inputs.length)
    (key : Block 33) : ∃ hash, tx.sighash index key .schnorr = .ok hash ∧
      Device.sighash s index key.xOnly = .ok hash := by
  have hinput : tx.inputs[index]? = some tx.inputs[index] := List.getElem?_eq_getElem hindex
  obtain ⟨r, hrecord, hvalue, htxId, hplace⟩ := h.input hinput
  refine ⟨_, by unfold Transaction.sighash; rw [hinput], ?_⟩
  unfold Device.sighash
  rw [hrecord, txHasher_eq]
  simp only [bind, Except.bind, pure, Except.pure]
  rw [h.foldl_previousOutputs, h.foldl_sequences, h.foldl_sigOpCounts, h.foldl_outputBytes]
  simp only [finish_freshHasher, hashOutpoint_eq, hashScript, Blake2b.Hasher.update_update,
    h.version, hvalue, htxId, hplace]
  -- the fields that a wallet leaves empty are one run of zeros to a device
  have hzeros : List.replicate 68 (0 : UInt8) =
      List.replicate 8 0 ++ List.replicate 20 0 ++ List.replicate 8 0 ++ List.replicate 32 0 := rfl
  refine congrArg (fun b => Except.ok (Transaction.digest b)) ?_
  rw [hzeros]
  unfold Transaction.image
  simp only [List.append_assoc]
  rfl

theorem sighash_out_of_range (h : s.Agrees tx) {index : Nat} (hindex : tx.inputs.length ≤ index)
    (key : Block 33) :
    tx.sighash index key .schnorr = .error (.unexpectedInputIndex (UInt8.ofNat index)) ∧
      Device.sighash s index key.xOnly = .error .txHashFail := by
  have hwallet : tx.inputs[index]? = none := List.getElem?_eq_none hindex
  have hdevice : s.inputs[index]? = none := List.getElem?_eq_none (by rwa [h.length_inputs])
  constructor
  · unfold Transaction.sighash
    rw [hwallet]
  · unfold Device.sighash
    rw [hdevice]

end StagedTx.Agrees

/-- A device hashes a staged transaction as the wallet does that sent it. -/
theorem Transaction.sighash_staged (tx : Transaction) {index : Nat} (h : index < tx.inputs.length)
    (key : Block 33) : ∃ hash, tx.sighash index key .schnorr = .ok hash ∧
      Device.sighash tx.staged index key.xOnly = .ok hash :=
  tx.staged_agrees.sighash_eq h key

/-- Wallet and device come to the same hashes. Where they hold the same version, outpoints, values
and outputs, they do so for each input and every key, and both refuse an input that is not there;
of a message they take in the same bytes. -/
theorem digests_agree :
    (∀ (tx : Transaction) (s : StagedTx), s.Agrees tx → ∀ (index : Nat) (key : Block 33),
      (index < tx.inputs.length → ∃ hash, tx.sighash index key .schnorr = .ok hash ∧
        Device.sighash s index key.xOnly = .ok hash) ∧
      (tx.inputs.length ≤ index →
        tx.sighash index key .schnorr = .error (.unexpectedInputIndex (UInt8.ofNat index)) ∧
        Device.sighash s index key.xOnly = .error .txHashFail)) ∧
    ∀ message : Bytes, Device.messageHash message = .ok (PersonalMessage.digest message) :=
  ⟨fun _ _ h _ key => ⟨fun hi => h.sighash_eq hi key, fun hi => h.sighash_out_of_range hi key⟩,
    Device.messageHash_eq⟩

namespace DigestExample

def tx : Transaction := .ofInBounds 1
  [⟨9, Block.zero 32, 0, 7, 3, none⟩, ⟨5, Block.ofNatBE 32 77, 1, 8, 0, none⟩]
  [⟨8, [0x51, 0xac], by decide⟩] none

/-- The same outpoints and values under other addresses, and change. -/
def staged : StagedTx :=
  ⟨⟨1, 2, 9, some ⟨1, 4⟩⟩, [⟨8, [0x51, 0xac]⟩],
    [⟨9, Block.zero 32, 1, 2, 3⟩, ⟨5, Block.ofNatBE 32 77, 0, 0, 0⟩]⟩

def key : Block 33 := ⟨2 :: List.replicate 32 9, by simp⟩

end DigestExample

open DigestExample in
theorem digests_agree_other_addresses :
    staged.Agrees tx ∧ (∃ hash, tx.sighash 1 key .schnorr = .ok hash ∧
      Device.sighash staged 1 key.xOnly = .ok hash) ∧
    tx.sighash 2 key .schnorr = .error (.unexpectedInputIndex 2) ∧
      Device.sighash staged 2 key.xOnly = .error .txHashFail := by
  have h : staged.Agrees tx := ⟨rfl, rfl, rfl⟩
  obtain ⟨hthere, -⟩ := digests_agree.1 tx staged h 1 key
  obtain ⟨-, hmissing⟩ := digests_agree.1 tx staged h 2 key
  exact ⟨h, hthere (by decide), hmissing (by decide)⟩

end HardwareSigner
