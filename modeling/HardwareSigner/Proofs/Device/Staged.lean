import HardwareSigner.Key.Source
import HardwareSigner.Device.Digest
import HardwareSigner.Proofs.Device.Payload
import HardwareSigner.Proofs.Device.Run
import HardwareSigner.Proofs.Wire.Reader

/-! What a device can come to hold: a transaction that is staged or waits for its approval, and a
message that is to be signed. Each operation on them is inverted once. -/

namespace HardwareSigner

/-- What a device asks of a header. Change goes to the second of two outputs. -/
structure TxHeader.Stageable (h : TxHeader) : Prop where
  version : h.version.toNat ≤ 1
  outputs : 1 ≤ h.numOutputs.toNat ∧ h.numOutputs.toNat ≤ 2
  inputs : 1 ≤ h.numInputs.toNat ∧ h.numInputs.toNat ≤ 15
  change : ∀ c, h.change = some c → h.numOutputs.toNat = 2 ∧ c.addressType ≤ 1

namespace StagedTx

variable {σ : Type} [KeySource σ] {tx tx' : StagedTx} {data : Bytes}

/-- A transaction on its way in: no more than declared, and outputs before inputs. -/
structure Partial (tx : StagedTx) : Prop where
  header : tx.header.Stageable
  outputs_le : tx.outputs.length ≤ tx.header.numOutputs.toNat
  inputs_le : tx.inputs.length ≤ tx.header.numInputs.toNat
  outputs_first : tx.inputs ≠ [] → tx.outputs.length = tx.header.numOutputs.toNat
  types : ∀ i ∈ tx.inputs, i.addressType ≤ 1

/-- The second output is locked to a key that the source gives for the change address. -/
def PaysChange (tx : StagedTx) (system : SignatureSystem) (keys : σ) (c : ChangeAddress) : Prop :=
  ∃ (source : σ) (k : DerivedKey) (o : TxOutput), KeySource.Asked keys source ∧
    (KeySource.derive source
      (DerivationPath.address defaultAccount c.addressType c.addressIndex).elements).1 = some k ∧
    tx.outputs[1]? = some o ∧ o.script = Device.p2pkScript (system.xOnly k.secret)

/-- A transaction that may be shown to the operator: all that was declared is there, inputs cover
outputs, and change is paid back. -/
structure Reviewed (tx : StagedTx) (system : SignatureSystem) (keys : σ) : Prop
    extends tx.Partial where
  outputs_eq : tx.outputs.length = tx.header.numOutputs.toNat
  inputs_eq : tx.inputs.length = tx.header.numInputs.toNat
  covered : tx.outputTotal ≤ tx.inputTotal
  change : ∀ c, tx.header.change = some c → tx.PaysChange system keys c

theorem Reviewed.inputs_ne {system : SignatureSystem} {keys : σ} (h : tx.Reviewed system keys) :
    tx.inputs ≠ [] := by
  refine List.length_pos_iff.1 ?_
  rw [h.inputs_eq]
  exact h.header.inputs.1

theorem accepts_iff {h : TxHeader} : accepts h = true ↔ h.Stageable := by
  unfold accepts
  simp only [Bool.and_eq_true, decide_eq_true_eq]
  constructor
  · rintro ⟨⟨⟨hv, ho⟩, hi⟩, hc⟩
    refine ⟨hv, ho, hi, ?_⟩
    intro c hsome
    rw [hsome] at hc
    simp only [Bool.and_eq_true, decide_eq_true_eq] at hc
    exact hc
  · intro hs
    refine ⟨⟨⟨hs.version, hs.outputs⟩, hs.inputs⟩, ?_⟩
    cases hc : h.change with
    | none => rfl
    | some c =>
      have := hs.change c hc
      simp only [Bool.and_eq_true, decide_eq_true_eq]
      exact this

theorem start_ok (h : start data = .ok tx) :
    TxHeader.read.decodeAll data = .ok tx.header ∧ tx.header.Stageable ∧ tx.outputs = [] ∧
      tx.inputs = [] := by
  unfold start at h
  split at h
  · cases h
  rename_i hread
  split at h
  · rename_i ha
    cases h
    exact ⟨hread, accepts_iff.1 ha, rfl, rfl⟩
  · cases h

theorem pushOutput_ok (h : tx.pushOutput data = .ok tx') :
    tx.inputs = [] ∧ tx.outputs.length < tx.header.numOutputs.toNat ∧
      ∃ o, TxOutput.read.decodeAll data = .ok o ∧
        tx' = { tx with outputs := tx.outputs ++ [o] } := by
  unfold pushOutput at h
  split at h
  · cases h
  rename_i hin
  split at h
  · cases h
  rename_i hroom
  split at h
  · cases h
  rename_i o hread
  cases h
  exact ⟨by simpa using hin, Nat.lt_of_not_le hroom, o, hread, rfl⟩

theorem pushInput_ok {last : Bool} (h : tx.pushInput data last = .ok tx') :
    tx.outputs.length = tx.header.numOutputs.toNat ∧
      tx.inputs.length < tx.header.numInputs.toNat ∧
      (last = true → tx.inputs.length + 1 = tx.header.numInputs.toNat) ∧
      ∃ i, TxInput.read.decodeAll data = .ok i ∧ i.addressType ≤ 1 ∧
        tx' = { tx with inputs := tx.inputs ++ [i] } := by
  unfold pushInput at h
  split at h
  · cases h
  rename_i hout
  split at h
  · cases h
  rename_i hroom
  split at h
  · cases h
  rename_i i hread
  split at h
  · cases h
  rename_i htype
  split at h
  · cases h
  rename_i hlast
  cases h
  refine ⟨not_not.1 hout, Nat.lt_of_not_le hroom, ?_, i, hread, UInt8.not_lt.1 htype, rfl⟩
  intro hl
  simpa [hl] using hlast

theorem start_partial (h : start data = .ok tx) : tx.Partial := by
  obtain ⟨-, hheader, hout, hin⟩ := start_ok h
  exact ⟨hheader, by simp [hout], by simp [hin], by simp [hin], by simp [hin]⟩

theorem Partial.pushOutput (hp : tx.Partial) (h : tx.pushOutput data = .ok tx') :
    tx'.Partial := by
  obtain ⟨hin, hroom, o, -, rfl⟩ := pushOutput_ok h
  refine ⟨hp.header, ?_, hp.inputs_le, ?_, hp.types⟩
  · rw [List.length_append]
    exact hroom
  · intro hne
    exact absurd hin hne

theorem Partial.pushInput {last : Bool} (hp : tx.Partial)
    (h : tx.pushInput data last = .ok tx') : tx'.Partial := by
  obtain ⟨hout, hroom, -, i, -, htype, rfl⟩ := pushInput_ok h
  refine ⟨hp.header, hp.outputs_le, ?_, fun _ => hout, ?_⟩
  · rw [List.length_append]
    exact hroom
  · intro j hj
    rcases List.mem_append.1 hj with hj | hj
    · exact hp.types j hj
    · obtain rfl := List.mem_singleton.1 hj
      exact htype

theorem checkFee_ok (h : tx.checkFee = .ok ()) : tx.outputTotal ≤ tx.inputTotal := by
  unfold checkFee at h
  split at h
  · assumption
  · cases h

theorem checkChange_ok {script : Bytes} (h : tx.checkChange script = .ok ()) :
    ∃ o, tx.outputs[1]? = some o ∧ o.script = script := by
  unfold checkChange at h
  split at h
  · rename_i o hget
    split at h
    · rename_i hscript
      exact ⟨o, hget, hscript⟩
    · cases h
  · cases h

end StagedTx

namespace Device

/-- What a device asks of a message: an address of a hardened account, and a length it shows. -/
structure MessageToSign.Shown (m : MessageToSign) (limit : Nat) : Prop where
  path : ∃ (account : UInt32) (addressType : UInt8) (addressIndex : UInt32),
    hardened ≤ account ∧ addressType ≤ 1 ∧
      m.path.elements = [purpose, coinType, account, addressType.toUInt32, addressIndex]
  length : 1 ≤ m.message.length ∧ m.message.length ≤ limit

theorem parseMessage_ok {data : Bytes} {limit : Nat} {m : MessageToSign}
    (h : parseMessage data limit = .ok m) : m.Shown limit := by
  obtain ⟨r, -, hkind, hhard, hne, hle, hmessage, hpath⟩ := parseMessage_eq_ok.1 h
  refine ⟨⟨r.account, r.addressType, r.addressIndex, hhard, hkind, hpath⟩, ?_⟩
  rw [hmessage]
  exact ⟨hne, hle⟩

end Device

end HardwareSigner
