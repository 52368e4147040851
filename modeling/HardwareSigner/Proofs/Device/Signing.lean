import HardwareSigner.Proofs.Device.Run

/-! Signing for the inputs of a transaction, each with the key of its own address. The source may
change from one question to the next, so a signature is tied to some state of it that questions
lead to. -/

namespace HardwareSigner

variable {σ : Type} [KeySource σ]

/-- The signature for the input of that index: what it says of itself, and that it was made with
the key that the source gives for the input's own address, over the hash of the transaction. -/
structure TxSignature.Signs (s : TxSignature) (tx : StagedTx) (system : SignatureSystem)
    (keys : σ) (index : Nat) : Prop where
  inputIndex : s.inputIndex = UInt8.ofNat index
  scheme : s.scheme = .schnorr
  signed : ∃ (i : TxInput) (source : σ) (k : DerivedKey), tx.inputs[index]? = some i ∧
    KeySource.Asked keys source ∧
    (KeySource.derive source
      (DerivationPath.address defaultAccount i.addressType i.addressIndex).elements).1 = some k ∧
    Device.sighash tx index (system.xOnly k.secret) = .ok s.sighash ∧
    s.signature = (system.sign k.secret s.sighash).bytes ∧
    s.recoveryId = system.parity k.secret

namespace Engine

theorem signInput_ok {e e' : Engine σ} {tx : StagedTx} {index : Nat} {i : TxInput}
    {s : TxSignature} (h : e.signInput tx index i = (.ok s, e'))
    (hi : tx.inputs[index]? = some i) : s.Signs tx e.system e.keys index := by
  have hask := e.derive_asks
    (DerivationPath.address defaultAccount i.addressType i.addressIndex).elements
  unfold signInput at h
  split at h
  · cases h
  rename_i k e₁ hd
  rw [hd] at hask
  split at h
  · cases h
  rename_i hash hhash
  cases h
  have hk := derive_ok (congrArg Prod.fst hd)
  rw [hask.system] at hhash
  refine ⟨rfl, rfl, i, e.keys, k, hi, .refl _, hk, hhash, ?_, ?_⟩
  · exact congrArg (fun y : SignatureSystem => (y.sign k.secret hash).bytes) hask.system
  · exact congrArg (fun y : SignatureSystem => y.parity k.secret) hask.system

theorem signInputs_ok {e e' : Engine σ} {tx : StagedTx} {index : Nat} {inputs : List TxInput}
    {signatures : List TxSignature} (h : e.signInputs tx index inputs = (.ok signatures, e'))
    (hin : ∀ j, inputs[j]? = tx.inputs[index + j]?) :
    signatures.length = inputs.length ∧
      ∀ (j : Nat) (s : TxSignature), signatures[j]? = some s →
        s.Signs tx e.system e.keys (index + j) := by
  induction inputs generalizing e index signatures with
  | nil =>
    cases h
    exact ⟨rfl, by simp⟩
  | cons i rest ih =>
    have hask := e.signInput_asks tx index i
    unfold signInputs at h
    split at h
    · cases h
    rename_i first e₁ hfirst
    rw [hfirst] at hask
    split at h
    · cases h
    rename_i others e₂ hothers
    cases h
    have hnext : ∀ j, rest[j]? = tx.inputs[index + 1 + j]? := by
      intro j
      have := hin (j + 1)
      rw [List.getElem?_cons_succ] at this
      rw [this, Nat.add_assoc, Nat.add_comm 1 j]
    obtain ⟨hlen, hsigns⟩ := ih hothers hnext
    refine ⟨by simp [hlen], ?_⟩
    rintro (_ | j) s hs
    · obtain rfl : first = s := by simpa using hs
      exact signInput_ok hfirst (by simpa using (hin 0).symm)
    · rw [List.getElem?_cons_succ] at hs
      obtain ⟨hindex, hscheme, k, source, key, hk, hsource, hkey⟩ := hsigns j s hs
      have hshift : index + 1 + j = index + (j + 1) := by omega
      rw [hshift] at hindex hk hkey
      rw [hask.system] at hkey
      exact ⟨hindex, hscheme, k, source, key, hk, hask.keys.trans hsource, hkey⟩

theorem sighash_complete {tx : StagedTx} {index : Nat} (h : index < tx.inputs.length)
    (xOnly : Block 32) : ∃ hash, Device.sighash tx index xOnly = .ok hash := by
  unfold Device.sighash
  rw [List.getElem?_eq_getElem h]
  exact ⟨_, rfl⟩

theorem signInput_complete {e : Engine σ} {tx : StagedTx} {index : Nat} {i : TxInput}
    (hkey : ∃ k, KeySource.addressKey e.keys i.addressType i.addressIndex = some k)
    (hindex : index < tx.inputs.length) :
    ∃ s e', e.signInput tx index i = (.ok s, e') := by
  obtain ⟨k, hk⟩ := hkey
  obtain ⟨hash, hhash⟩ := sighash_complete hindex (e.system.xOnly k.secret)
  unfold signInput
  rw [derive_of_key hk]
  simp only [hhash]
  exact ⟨_, _, rfl⟩

/-- A source that has a key for the address of each input leaves none unsigned. -/
theorem signInputs_complete (e : Engine σ) {tx : StagedTx} {index : Nat} {inputs : List TxInput}
    (hkeys : ∀ source, KeySource.Asked e.keys source → ∀ i ∈ inputs,
      ∃ k, KeySource.addressKey source i.addressType i.addressIndex = some k)
    (hin : index + inputs.length ≤ tx.inputs.length) :
    ∃ signatures e', e.signInputs tx index inputs = (.ok signatures, e') := by
  induction inputs generalizing e index with
  | nil => exact ⟨[], e, rfl⟩
  | cons i rest ih =>
    rw [List.length_cons] at hin
    obtain ⟨s, e₁, hs⟩ := signInput_complete (hkeys e.keys (.refl _) i List.mem_cons_self)
      (show index < tx.inputs.length by omega)
    have hask := e.signInput_asks tx index i
    rw [hs] at hask
    have hrest : ∀ source, KeySource.Asked e₁.keys source → ∀ j ∈ rest,
        ∃ k, KeySource.addressKey source j.addressType j.addressIndex = some k :=
      fun source hasked j hj =>
        hkeys source (hask.keys.trans hasked) j (List.mem_cons_of_mem _ hj)
    obtain ⟨signatures, e₂, hothers⟩ :=
      ih e₁ hrest (show index + 1 + rest.length ≤ _ by omega)
    refine ⟨s :: signatures, e₂, ?_⟩
    unfold signInputs
    rw [hs]
    simp only [hothers]

end Engine

end HardwareSigner
