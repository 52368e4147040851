import HardwareSigner.Proofs.Transaction.Serial
import HardwareSigner.Proofs.Wire.Word
import HardwareSigner.Transaction.Sighash

/-! What the hash of an input commits to. Five byte strings are hashed on the way to it, and
together they tell version, outpoints, outputs and the spent output apart, whatever the hash does
with them: fields have a fixed width, scripts stand behind their length, and the two forms of a
spend script begin with different bytes. Keys of other inputs, addresses, values of other inputs and
change do not enter. -/

namespace HardwareSigner

namespace Bytes

variable {α β : Type} {written : α → Bytes}

/-- What is written for a value tells the value and where it ends, whatever follows. -/
def Delimited (written : α → Bytes) : Prop :=
  ∀ a b s t, written a ++ s = written b ++ t → a = b ∧ s = t

theorem delimited_of_length {n : Nat} (hn : ∀ a, (written a).length = n)
    (hinj : Function.Injective written) : Delimited written := by
  intro a b s t h
  obtain ⟨hab, hst⟩ := List.append_inj h ((hn a).trans (hn b).symm)
  exact ⟨hinj hab, hst⟩

theorem delimited_ofUInt16LE : Delimited ofUInt16LE :=
  delimited_of_length length_ofUInt16LE ofUInt16LE_injective

theorem delimited_ofUInt32LE : Delimited ofUInt32LE :=
  delimited_of_length length_ofUInt32LE ofUInt32LE_injective

theorem delimited_ofUInt64LE : Delimited ofUInt64LE :=
  delimited_of_length length_ofUInt64LE ofUInt64LE_injective

theorem delimited_block {n : Nat} : Delimited (Block.bytes (n := n)) :=
  delimited_of_length Block.length_bytes fun _ _ h => Block.ext h

theorem Delimited.append {written' : β → Bytes} (hw : Delimited written)
    (hw' : Delimited written') :
    Delimited fun p : α × β => written p.1 ++ written' p.2 := by
  rintro ⟨a, b⟩ ⟨a', b'⟩ s t h
  rw [List.append_assoc, List.append_assoc] at h
  obtain ⟨ha, hrest⟩ := hw _ _ _ _ h
  obtain ⟨hb, hst⟩ := hw' _ _ _ _ hrest
  exact ⟨Prod.ext ha hb, hst⟩

/-- Values in a row are told apart, also from fewer of them. -/
theorem Delimited.flatMap_injective (hw : Delimited written) (hne : ∀ a, written a ≠ []) :
    Function.Injective fun as : List α => as.flatMap written := by
  intro as
  induction as with
  | nil =>
    intro bs h
    cases bs with
    | nil => rfl
    | cons b bs => exact absurd (List.append_eq_nil_iff.1 h.symm).1 (hne b)
  | cons a as ih =>
    intro bs h
    cases bs with
    | nil => exact absurd (List.append_eq_nil_iff.1 h).1 (hne a)
    | cons b bs =>
      simp only [List.flatMap_cons] at h
      obtain ⟨rfl, hrest⟩ := hw a b _ _ h
      rw [ih hrest]

/-- A string behind its length of eight bytes is told from others of such lengths. -/
theorem lengthAhead_split {a b s t : Bytes} (ha : a.length < 256 ^ 8) (hb : b.length < 256 ^ 8)
    (h : ofNatLE 8 a.length ++ (a ++ s) = ofNatLE 8 b.length ++ (b ++ t)) : a = b ∧ s = t := by
  obtain ⟨hlen, h⟩ := List.append_inj h (by simp)
  exact List.append_inj h (ofNatLE_inj ha hb hlen)

end Bytes

open Bytes

def TransactionInput.outpoint (i : TransactionInput) : Block 32 × UInt32 :=
  (i.previousTxId, i.inputIndex)

def TransactionOutput.hashed (o : TransactionOutput) : Bytes :=
  ofUInt64LE o.value ++ ofUInt16LE 0 ++ ofNatLE 8 o.script.length ++ o.script

theorem TransactionOutput.delimited_hashed : Delimited TransactionOutput.hashed := by
  rintro ⟨value, script, hlen⟩ ⟨value', script', hlen'⟩ s t h
  simp only [hashed, List.append_assoc] at h
  obtain ⟨rfl, hversion⟩ := delimited_ofUInt64LE _ _ _ _ h
  obtain ⟨-, hscript⟩ := delimited_ofUInt16LE _ _ _ _ hversion
  obtain ⟨rfl, hst⟩ := lengthAhead_split (by omega) (by omega) hscript
  exact ⟨rfl, hst⟩

theorem length_spendScript_le (key : Block 33) (scheme : SignatureScheme) :
    (spendScript key scheme).length ≤ 35 := by
  cases scheme with
  | schnorr => simp [spendScript, Block.length_bytes]
  | ecdsa => simp [spendScript, Block.length_bytes]

/-- A spend script tells its scheme and the first coordinate, and with the second scheme the key. -/
theorem spendScript_eq_iff {key key' : Block 33} {scheme scheme' : SignatureScheme} :
    spendScript key scheme = spendScript key' scheme' ↔
      scheme = scheme' ∧ key.xOnly = key'.xOnly ∧ (scheme = .ecdsa → key = key') := by
  cases scheme with
  | schnorr =>
    cases scheme' with
    | schnorr =>
      constructor
      · intro h
        have hx := List.append_cancel_right (List.cons.inj h).2
        exact ⟨rfl, Block.ext hx, nofun⟩
      · rintro ⟨-, hx, -⟩
        simp only [spendScript, hx]
    | ecdsa => exact ⟨fun h => absurd (List.cons.inj h).1 (by decide), fun h => nomatch h.1⟩
  | ecdsa =>
    cases scheme' with
    | schnorr => exact ⟨fun h => absurd (List.cons.inj h).1 (by decide), fun h => nomatch h.1⟩
    | ecdsa =>
      constructor
      · intro h
        obtain rfl : key = key' := Block.ext (List.append_cancel_right (List.cons.inj h).2)
        exact ⟨rfl, rfl, fun _ => rfl⟩
      · rintro ⟨-, -, hkey⟩
        rw [hkey rfl]

/-- The byte strings that are hashed on the way to the hash of an input. -/
structure HashedStrings where
  previousOutputs : Bytes
  sequences : Bytes
  sigOpCounts : Bytes
  outputs : Bytes
  /-- The one that is hashed last, with what became of the others. -/
  last : Bytes

namespace Transaction

variable {tx tx' : Transaction} {i i' : TransactionInput}

/-- What is hashed for an input that this key spends under the scheme. The hash that stands for the
first four strings in the last one may be any. -/
def hashed (tx : Transaction) (hash : Bytes → Block 32) (i : TransactionInput) (key : Block 33)
    (scheme : SignatureScheme) : HashedStrings where
  previousOutputs := tx.previousOutputs
  sequences := tx.sequences
  sigOpCounts := tx.sigOpCounts
  outputs := tx.outputBytes
  last := tx.image i (spendScript key scheme) (hash tx.previousOutputs) (hash tx.sequences)
    (hash tx.sigOpCounts) (hash tx.outputBytes)

def outpoints (tx : Transaction) : List (Block 32 × UInt32) :=
  tx.inputs.map TransactionInput.outpoint

theorem previousOutputs_eq (tx : Transaction) :
    tx.previousOutputs = tx.outpoints.flatMap fun p => p.1.bytes ++ ofUInt32LE p.2 := by
  rw [outpoints, List.flatMap_map]
  rfl

theorem sequences_eq (tx : Transaction) :
    tx.sequences = tx.outpoints.flatMap fun _ => ofUInt64LE 0 := by
  rw [outpoints, List.flatMap_map]
  rfl

theorem sigOpCounts_eq (tx : Transaction) : tx.sigOpCounts = tx.outpoints.map fun _ => 1 := by
  rw [outpoints, List.map_map]
  rfl

theorem previousOutputs_inj (h : tx.previousOutputs = tx'.previousOutputs) :
    tx.outpoints = tx'.outpoints := by
  rw [previousOutputs_eq, previousOutputs_eq] at h
  have hne : ∀ p : Block 32 × UInt32, p.1.bytes ++ ofUInt32LE p.2 ≠ [] := by
    intro p hp
    have hlen := congrArg List.length hp
    simp [Block.length_bytes] at hlen
  exact (delimited_block.append delimited_ofUInt32LE).flatMap_injective hne h

theorem outputBytes_inj (h : tx.outputBytes = tx'.outputBytes) : tx.outputs = tx'.outputs := by
  have hne : ∀ o : TransactionOutput, o.hashed ≠ [] := by
    intro o ho
    have hlen := congrArg List.length ho
    simp [TransactionOutput.hashed] at hlen
  exact TransactionOutput.delimited_hashed.flatMap_injective hne h

/-- With the same blocks in it the last string tells the version, and the spent output by its place,
script and value. -/
theorem image_inj {script script' : Bytes} {a b c d : Block 32} (hs : script.length < 256 ^ 8)
    (hs' : script'.length < 256 ^ 8)
    (h : tx.image i script a b c d = tx'.image i' script' a b c d) :
    tx.version = tx'.version ∧ i.outpoint = i'.outpoint ∧ script = script' ∧
      i.value = i'.value := by
  unfold image at h
  simp only [List.append_assoc] at h
  obtain ⟨hversion, h⟩ := delimited_ofUInt16LE _ _ _ _ h
  replace h := List.append_cancel_left h
  replace h := List.append_cancel_left h
  replace h := List.append_cancel_left h
  obtain ⟨htxId, h⟩ := delimited_block _ _ _ _ h
  obtain ⟨hplace, h⟩ := delimited_ofUInt32LE _ _ _ _ h
  obtain ⟨hscript, h⟩ := lengthAhead_split hs hs' (List.append_cancel_left h)
  obtain ⟨hvalue, -⟩ := delimited_ofUInt64LE _ _ _ _ h
  exact ⟨hversion, Prod.ext htxId hplace, hscript, hvalue⟩

theorem image_congr {script : Bytes} {a b c d : Block 32} (hversion : tx.version = tx'.version)
    (houtpoint : i.outpoint = i'.outpoint) (hvalue : i.value = i'.value) :
    tx.image i script a b c d = tx'.image i' script a b c d := by
  obtain ⟨htxId, hplace⟩ := Prod.ext_iff.1 houtpoint
  simp only [TransactionInput.outpoint] at htxId hplace
  unfold image
  rw [hversion, htxId, hplace, hvalue]

/-- The hash of an input is over strings that tell, whatever hash stands for the first four in the
last: the version, where all spent outputs are, all outputs, the place and value of the output that
the input spends, and its script. They tell no more than that, and the script tells the scheme, the
first coordinate of the key and, for the second scheme, the key. -/
theorem sighash_commits (hash : Bytes → Block 32) {index index' : Nat} (key key' : Block 33)
    (scheme scheme' : SignatureScheme) (hi : tx.inputs[index]? = some i)
    (hi' : tx'.inputs[index']? = some i') :
    tx.sighash index key scheme = .ok (digest (tx.hashed digest i key scheme).last) ∧
    tx'.sighash index' key' scheme' = .ok (digest (tx'.hashed digest i' key' scheme').last) ∧
    (tx.hashed hash i key scheme = tx'.hashed hash i' key' scheme' ↔
      tx.version = tx'.version ∧ tx.outpoints = tx'.outpoints ∧ tx.outputs = tx'.outputs ∧
        i.outpoint = i'.outpoint ∧ i.value = i'.value ∧
        spendScript key scheme = spendScript key' scheme') ∧
    (spendScript key scheme = spendScript key' scheme' ↔
      scheme = scheme' ∧ key.xOnly = key'.xOnly ∧ (scheme = .ecdsa → key = key')) := by
  refine ⟨by rw [sighash, hi]; rfl, by rw [sighash, hi']; rfl, ⟨fun h => ?_, ?_⟩,
    spendScript_eq_iff⟩
  · obtain ⟨hprevious, hsequences, hcounts, houtputs, hlast⟩ := HashedStrings.mk.inj h
    rw [hprevious, hsequences, hcounts, houtputs] at hlast
    have hshort := length_spendScript_le key scheme
    have hshort' := length_spendScript_le key' scheme'
    obtain ⟨hversion, houtpoint, hscript, hvalue⟩ := image_inj (by omega) (by omega) hlast
    exact ⟨hversion, previousOutputs_inj hprevious, outputBytes_inj houtputs, houtpoint, hvalue,
      hscript⟩
  · rintro ⟨hversion, houtpoints, houtputs, houtpoint, hvalue, hscript⟩
    have hprevious : tx.previousOutputs = tx'.previousOutputs := by
      rw [previousOutputs_eq, houtpoints, previousOutputs_eq]
    have hsequences : tx.sequences = tx'.sequences := by
      rw [sequences_eq, houtpoints, sequences_eq]
    have hcounts : tx.sigOpCounts = tx'.sigOpCounts := by
      rw [sigOpCounts_eq, houtpoints, sigOpCounts_eq]
    have hbytes : tx.outputBytes = tx'.outputBytes := by rw [outputBytes, houtputs, outputBytes]
    simp only [hashed, hprevious, hsequences, hcounts, hbytes, hscript,
      image_congr hversion houtpoint hvalue]

end Transaction

namespace CommitmentExample

def spent : TransactionInput := ⟨5, Block.ofNatBE 32 77, 0, 8, 3, none⟩

def tx : Transaction := .ofInBounds 1 [⟨9, Block.zero 32, 0, 7, 0, none⟩, spent]
  [⟨8, [0x51, 0x53], by decide⟩, ⟨1, [], by decide⟩] (some ⟨1, 4⟩)

/-- The other input is worth less, both are of other addresses, and there is no change. -/
def tx' : Transaction := .ofInBounds 1
  [⟨2, Block.zero 32, 1, 0, 0, none⟩, { spent with addressIndex := 1 }] tx.outputs none

/-- Two keys with one first coordinate. -/
def key (parity : UInt8) : Block 33 := ⟨parity :: List.replicate 32 9, by simp⟩

end CommitmentExample

open CommitmentExample in
theorem sighash_commits_same_strings :
    tx.inputs[1]? = some spent ∧ tx'.inputs[1]? = some { spent with addressIndex := 1 } ∧
    tx.hashed Transaction.digest spent (key 2) .schnorr =
      tx'.hashed Transaction.digest { spent with addressIndex := 1 } (key 3) .schnorr ∧
    tx.hashed Transaction.digest spent (key 2) .ecdsa ≠
      tx'.hashed Transaction.digest { spent with addressIndex := 1 } (key 3) .ecdsa := by
  have hi : tx.inputs[1]? = some spent := rfl
  have hi' : tx'.inputs[1]? = some { spent with addressIndex := 1 } := rfl
  obtain ⟨-, -, hstrings, hscript⟩ := Transaction.sighash_commits Transaction.digest (key 2)
    (key 3) .schnorr .schnorr hi hi'
  obtain ⟨-, -, hstrings', hscript'⟩ := Transaction.sighash_commits Transaction.digest (key 2)
    (key 3) .ecdsa .ecdsa hi hi'
  refine ⟨hi, hi', hstrings.2 ⟨rfl, rfl, rfl, rfl, rfl, hscript.2 ⟨rfl, rfl, nofun⟩⟩, fun h => ?_⟩
  have hkey : key 2 = key 3 := (hscript'.1 (hstrings'.1 h).2.2.2.2.2).2.2 rfl
  exact absurd hkey (by decide)

end HardwareSigner
