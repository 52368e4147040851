import Mathlib.Data.Set.Card
import HardwareSigner.Transaction.Serial
import HardwareSigner.Proofs.Wire.Records

/-! What the serial form of a transaction tells. Each of the two forms of a header leaves at most
one way to read what follows it, so a byte string is the serial form of at most one transaction
without a change address and of at most one with. Reading gives a transaction where there is one
alone, and tells apart why it gives none. -/

namespace HardwareSigner

namespace TransactionOutput

/-- An output is made of every record whose script has a length of one byte. -/
theorem ofRecord_eq_ok {r : TxOutput} {o : TransactionOutput} :
    ofRecord r = .ok o ↔ o.toRecord = r := by
  unfold ofRecord ofParts
  split
  · constructor
    · rintro ⟨⟩
      rfl
    · rintro rfl
      rfl
  · rename_i hlen
    refine ⟨nofun, ?_⟩
    rintro rfl
    exact absurd o.length_script hlen

theorem mapM_ofRecord_eq_ok {rs : List TxOutput} {os : List TransactionOutput} :
    rs.mapM ofRecord = .ok os ↔ os.map toRecord = rs := by
  rw [mapM_eq_ok]
  simp only [ofRecord_eq_ok]
  rw [← List.forall₂_eq_eq_eq, List.forall₂_map_left_iff]
  constructor
  · intro h
    exact h.flip
  · intro h
    exact h.flip

theorem exists_map_toRecord {rs : List TxOutput} (h : ∀ r ∈ rs, r.script.length ≤ 255) :
    ∃ os : List TransactionOutput, os.map toRecord = rs := by
  refine ⟨rs.pmap (fun r h => ⟨r.value, r.script, h⟩) h, ?_⟩
  rw [List.map_pmap]
  exact (List.pmap_eq_map h).trans (List.map_id rs)

theorem serialize_eq_layout (o : TransactionOutput) : o.serialize = o.toRecord.layout := rfl

end TransactionOutput

namespace TransactionInput

def clearKey (i : TransactionInput) : TransactionInput := { i with publicKey := none }

@[simp] theorem toRecord_ofRecord (r : TxInput) : (ofRecord r).toRecord = r := rfl

@[simp] theorem ofRecord_toRecord (i : TransactionInput) : ofRecord i.toRecord = i.clearKey := rfl

end TransactionInput

namespace Transaction

variable {tx : Transaction} {h : TxHeader} {b tail : Bytes}

/-- No key of an input is known, which is how a transaction comes off the wire. -/
def Keyless (tx : Transaction) : Prop := ∀ i ∈ tx.inputs, i.publicKey = none

def clearKeys (tx : Transaction) : Transaction :=
  { tx with
    inputs := tx.inputs.map TransactionInput.clearKey
    inputs_le := by rw [List.length_map]; exact tx.inputs_le
    inputs_ne := by rw [ne_eq, List.map_eq_nil_iff]; exact tx.inputs_ne }

@[simp] theorem header_numOutputs (tx : Transaction) :
    tx.header.numOutputs.toNat = tx.outputs.length :=
  UInt8.toNat_ofNat_of_lt' (Nat.lt_succ_of_le tx.outputs_le)

@[simp] theorem header_numInputs (tx : Transaction) :
    tx.header.numInputs.toNat = tx.inputs.length :=
  UInt8.toNat_ofNat_of_lt' (Nat.lt_succ_of_le tx.inputs_le)

def body (tx : Transaction) : Bytes :=
  tx.outputs.flatMap (·.serialize) ++ tx.inputs.flatMap (·.serialize)

theorem serialize_eq (tx : Transaction) : tx.serialize = tx.header.layout ++ tx.body :=
  List.append_assoc ..

theorem keyless_clearKeys (tx : Transaction) : tx.clearKeys.Keyless := by
  intro i hi
  obtain ⟨j, -, rfl⟩ := List.mem_map.1 hi
  rfl

@[simp] theorem header_clearKeys (tx : Transaction) : tx.clearKeys.header = tx.header := by
  simp [header, clearKeys]

@[simp] theorem body_clearKeys (tx : Transaction) : tx.clearKeys.body = tx.body := by
  simp [body, clearKeys, List.flatMap_map, TransactionInput.serialize, TransactionInput.clearKey,
    TransactionInput.toRecord]

@[simp] theorem serialize_clearKeys (tx : Transaction) : tx.clearKeys.serialize = tx.serialize := by
  rw [serialize_eq, serialize_eq, header_clearKeys, body_clearKeys]

theorem Keyless.map_ofRecord (hk : tx.Keyless) :
    (tx.inputs.map TransactionInput.toRecord).map TransactionInput.ofRecord = tx.inputs := by
  rw [List.map_map]
  refine (List.map_congr_left fun i hi => ?_).trans (List.map_id _)
  obtain ⟨value, txId, t, index, place, key⟩ := i
  obtain rfl : key = none := hk _ hi
  rfl

theorem ofParts_eq_ok {version : UInt16} {inputs : List TransactionInput}
    {outputs : List TransactionOutput} :
    ofParts version inputs outputs = .ok tx ↔
      tx.version = version ∧ tx.inputs = inputs ∧ tx.outputs = outputs ∧ tx.change = none := by
  constructor
  · intro h
    unfold ofParts at h
    split_ifs at h
    cases h
    exact ⟨rfl, rfl, rfl, rfl⟩
  · obtain ⟨version, inputs, outputs, change, hv, hi, ho, hin, hon⟩ := tx
    rintro ⟨rfl, rfl, rfl, rfl⟩
    unfold ofParts
    rw [dif_pos hv, dif_pos hi, dif_pos ho, dif_pos hin, dif_pos hon]

theorem readBody_eq_ok {outs : List TxOutput} {ins : List TxInput} :
    (readBody h).decodeAll b = .ok (outs, ins) ↔
      outs.length = h.numOutputs.toNat ∧ ins.length = h.numInputs.toNat ∧
        (∀ o ∈ outs, o.script.length ≤ 255) ∧
        b = outs.flatMap TxOutput.layout ++ ins.flatMap TxInput.layout := by
  have hout := TxOutput.exact_read.times h.numOutputs.toNat
  have hin := TxInput.exact_read.times h.numInputs.toNat
  simp only [Reader.decodeAll_eq_ok, readBody, Reader.bind_ok, Reader.pure_eq_ok, Prod.mk.injEq]
  constructor
  · rintro ⟨os, mid, hos, is, rest, his, ⟨rfl, rfl⟩, rfl⟩
    obtain ⟨⟨hlen, hscript⟩, rfl⟩ := (hout _ _ _).1 hos
    obtain ⟨⟨hlen', -⟩, rfl⟩ := (hin _ _ _).1 his
    exact ⟨hlen, hlen', hscript, by simp⟩
  · rintro ⟨hlen, hlen', hscript, rfl⟩
    exact ⟨outs, _, (hout _ _ _).2 ⟨⟨hlen, hscript⟩, rfl⟩, ins, [],
      (hin _ _ _).2 ⟨⟨hlen', fun _ _ => trivial⟩, by simp⟩, ⟨rfl, rfl⟩, rfl⟩

theorem body_eq (tx : Transaction) :
    tx.body = (tx.outputs.map TransactionOutput.toRecord).flatMap TxOutput.layout ++
      (tx.inputs.map TransactionInput.toRecord).flatMap TxInput.layout := by
  simp only [body, List.flatMap_map]
  rfl

/-- Behind its header a transaction is read in one way alone. -/
theorem ofHeader_eq_ok :
    ofHeader h tail = .ok tx ↔ tx.header = h ∧ tx.body = tail ∧ tx.Keyless := by
  simp only [ofHeader, bind_eq_ok, liftWire_eq_ok]
  constructor
  · rintro ⟨⟨outs, ins⟩, hbody, os, hos, t, ht, ⟨⟩⟩
    obtain ⟨hlen, hlen', -, rfl⟩ := readBody_eq_ok.1 hbody
    obtain rfl := TransactionOutput.mapM_ofRecord_eq_ok.1 hos
    obtain ⟨hversion, hins, houts, -⟩ := ofParts_eq_ok.1 ht
    rw [List.length_map] at hlen
    refine ⟨?_, ?_, ?_⟩
    · simp [header, withChange, hversion, hins, houts, hlen, hlen']
    · rw [body_eq]
      change (t.outputs.map _).flatMap _ ++ (t.inputs.map _).flatMap _ = _
      rw [hins, houts, List.map_map]
      congr 2
      exact List.map_id _
    · intro i hi
      change i ∈ t.inputs at hi
      rw [hins] at hi
      obtain ⟨r, -, rfl⟩ := List.mem_map.1 hi
      rfl
  · rintro ⟨rfl, rfl, hk⟩
    refine ⟨(tx.outputs.map TransactionOutput.toRecord, tx.inputs.map TransactionInput.toRecord),
      readBody_eq_ok.2 ⟨?_, ?_, ?_, tx.body_eq⟩, tx.outputs,
      TransactionOutput.mapM_ofRecord_eq_ok.2 rfl, tx.withChange none, ?_, rfl⟩
    · rw [List.length_map, header_numOutputs]
    · rw [List.length_map, header_numInputs]
    · intro o ho
      obtain ⟨o, -, rfl⟩ := List.mem_map.1 ho
      exact o.length_script
    · exact ofParts_eq_ok.2 ⟨rfl, hk.map_ofRecord.symm, rfl, rfl⟩

theorem ofPayloads_eq_ok {ps : List Bytes} :
    ofPayloads ps = .ok tx ↔
      ∃ rest, ps = tx.header.layout :: rest ∧ rest.flatten = tx.body ∧ tx.Keyless := by
  cases ps with
  | nil =>
    refine ⟨nofun, ?_⟩
    rintro ⟨rest, ⟨⟩, -⟩
  | cons start rest =>
    simp only [ofPayloads, bind_eq_ok, liftWire_eq_ok, TxHeader.decodeAll_eq_ok, ofHeader_eq_ok]
    constructor
    · rintro ⟨h, rfl, rfl, hbody, hk⟩
      exact ⟨rest, rfl, hbody.symm, hk⟩
    · rintro ⟨_, ⟨⟩, hbody, hk⟩
      exact ⟨tx.header, rfl, rfl, hbody.symm, hk⟩

/-- Once header, outputs and inputs are each read from a piece of their own, the transaction behind
the pieces has what was read from them, and nothing else. -/
theorem ofPayloads_pieces {outputs : List TxOutput} {inputs : List TxInput} {start : Bytes}
    {outs ins : List Bytes} (hstart : TxHeader.read.decodeAll start = .ok h)
    (houts : List.Forall₂ (fun b o => TxOutput.read.decodeAll b = .ok o) outs outputs)
    (hins : List.Forall₂ (fun b i => TxInput.read.decodeAll b = .ok i) ins inputs)
    (hnout : outputs.length = h.numOutputs.toNat) (hnin : inputs.length = h.numInputs.toNat)
    (hversion : h.version.toNat ≤ maxVersion) (houtputs : outputs ≠ []) (hinputs : inputs ≠ []) :
    ∃ t, ofPayloads (start :: (outs ++ ins)) = .ok t ∧ t.version = h.version ∧
      t.change = h.change ∧ t.outputs.map TransactionOutput.toRecord = outputs ∧
      t.inputs = inputs.map TransactionInput.ofRecord := by
  obtain ⟨hscripts, hout⟩ := TxOutput.exact_read.flatten_eq houts
  obtain ⟨-, hin⟩ := TxInput.exact_read.flatten_eq hins
  obtain ⟨os, rfl⟩ := TransactionOutput.exists_map_toRecord hscripts
  rw [List.length_map] at hnout
  have hbyte := h.numOutputs.toNat_lt
  have hbyte' := h.numInputs.toNat_lt
  let t : Transaction :=
    { version := h.version
      inputs := inputs.map TransactionInput.ofRecord
      outputs := os
      change := h.change
      version_le := hversion
      inputs_le := by rw [List.length_map]; omega
      outputs_le := by omega
      inputs_ne := by simpa using hinputs
      outputs_ne := by simpa using houtputs }
  refine ⟨t, ofPayloads_eq_ok.2 ⟨outs ++ ins, ?_, ?_, ?_⟩, rfl, rfl, rfl, rfl⟩
  · have hheader : t.header = h := by simp [t, header, hnout, hnin]
    rw [hheader, ← TxHeader.decodeAll_eq_ok.1 hstart]
  · have hrecords : t.inputs.map TransactionInput.toRecord = inputs := by
      simp [t, Function.comp_def]
    rw [List.flatten_append, hout, hin, body_eq, hrecords]
  · intro i hi
    obtain ⟨r, -, rfl⟩ := List.mem_map.1 hi
    rfl

/-- The transactions without keys that this is the serial form of. -/
def preimages (b : Bytes) : Set Transaction := {tx | tx.Keyless ∧ tx.serialize = b}

/-- Where the header takes the first `n` bytes, the rest is read in one way alone. -/
theorem ofSplit?_eq_some {n : Nat} :
    ofSplit? n b = some tx ↔ tx.header.layout.length = n ∧ tx ∈ preimages b := by
  unfold ofSplit? preimages
  rw [Set.mem_ofPred_eq, serialize_eq]
  split
  · rename_i hshort
    refine ⟨nofun, ?_⟩
    rintro ⟨rfl, -, rfl⟩
    rw [List.length_append] at hshort
    omega
  · rename_i hroom
    have hlen := List.length_take_of_le (Nat.le_of_not_lt hroom)
    have htx : ∀ h body, (ofHeader h body).toOption = some tx ↔ ofHeader h body = .ok tx := by
      intro h body
      cases ofHeader h body <;> simp [Except.toOption]
    constructor
    · split
      · exact nofun
      · rename_i h hread
        rw [htx, ofHeader_eq_ok]
        rintro ⟨rfl, hbody, hk⟩
        have hhead := TxHeader.decodeAll_eq_ok.1 hread
        refine ⟨by rw [← hhead, hlen], hk, ?_⟩
        rw [hbody, ← hhead, List.take_append_drop]
    · rintro ⟨rfl, hk, rfl⟩
      rw [List.take_left, List.drop_left, TxHeader.decodeAll_eq_ok.2 rfl]
      exact (htx _ _).2 (ofHeader_eq_ok.2 ⟨rfl, rfl, hk⟩)

theorem ofSplit?_short : ofSplit? TxHeader.shortLength b = some tx ↔
    tx ∈ preimages b ∧ tx.change = none := by
  rw [ofSplit?_eq_some, TxHeader.length_layout, and_comm]
  cases hc : tx.change <;> simp [header, hc, TxHeader.shortLength, TxHeader.longLength]

theorem ofSplit?_long : ofSplit? TxHeader.longLength b = some tx ↔
    tx ∈ preimages b ∧ tx.change ≠ none := by
  rw [ofSplit?_eq_some, TxHeader.length_layout, and_comm]
  cases hc : tx.change <;> simp [header, hc, TxHeader.shortLength, TxHeader.longLength]

/-- There are three outcomes, by the number of transactions with this serial form. -/
theorem deserialize_cases (b : Bytes) :
    (∃ t u, t.change = none ∧ u.change ≠ none ∧ preimages b = {t, u} ∧
      deserialize b = .error (.wire .invalidEncoding)) ∨
    (∃ t, preimages b = {t} ∧ deserialize b = .ok t) ∨
    preimages b = ∅ ∧ deserialize b = .error (.wire .invalidLength) := by
  have hmem : ∀ tx, tx ∈ preimages b ↔
      ofSplit? TxHeader.shortLength b = some tx ∨ ofSplit? TxHeader.longLength b = some tx := by
    intro tx
    rw [ofSplit?_short, ofSplit?_long, ← and_or_left]
    simp [em]
  unfold deserialize
  cases hs : ofSplit? TxHeader.shortLength b with
  | some t =>
    cases hl : ofSplit? TxHeader.longLength b with
    | some u =>
      refine .inl ⟨t, u, (ofSplit?_short.1 hs).2, (ofSplit?_long.1 hl).2, ?_, rfl⟩
      ext tx
      simp [hmem, hs, hl, eq_comm]
    | none =>
      refine .inr (.inl ⟨t, ?_, rfl⟩)
      ext tx
      simp [hmem, hs, hl, eq_comm]
  | none =>
    cases hl : ofSplit? TxHeader.longLength b with
    | some u =>
      refine .inr (.inl ⟨u, ?_, rfl⟩)
      ext tx
      simp [hmem, hs, hl, eq_comm]
    | none =>
      refine .inr (.inr ⟨?_, rfl⟩)
      ext tx
      simp [hmem, hs, hl]

/-- Reading gives the one transaction with this serial form. It refuses the encoding where there
are two, one of which declares a change address, and the length where there is none. So what is
read of the serial form of a transaction is that transaction, but for keys. -/
theorem deserialize_exact :
    (∀ b : Bytes,
      (∀ tx, deserialize b = .ok tx ↔ preimages b = {tx}) ∧
      (deserialize b = .error (.wire .invalidEncoding) ↔ (preimages b).encard = 2) ∧
      ((preimages b).encard = 2 →
        ∃ t u, preimages b = {t, u} ∧ t.change = none ∧ u.change ≠ none) ∧
      (deserialize b = .error (.wire .invalidLength) ↔ preimages b = ∅)) ∧
    ∀ tx t : Transaction, deserialize tx.serialize = .ok t → t = tx.clearKeys := by
  have houtcomes : ∀ b : Bytes,
      (∀ tx, deserialize b = .ok tx ↔ preimages b = {tx}) ∧
      (deserialize b = .error (.wire .invalidEncoding) ↔ (preimages b).encard = 2) ∧
      ((preimages b).encard = 2 →
        ∃ t u, preimages b = {t, u} ∧ t.change = none ∧ u.change ≠ none) ∧
      (deserialize b = .error (.wire .invalidLength) ↔ preimages b = ∅) := by
    intro b
    rcases deserialize_cases b with ⟨t, u, ht, hu, hset, hr⟩ | ⟨t, hset, hr⟩ | ⟨hset, hr⟩
    · have hne : t ≠ u := by
        rintro rfl
        exact hu ht
      have hcard := Set.encard_pair hne
      rw [hset, hr]
      refine ⟨fun tx => ⟨nofun, fun h => ?_⟩, ?_, fun _ => ⟨t, u, rfl, ht, hu⟩, ?_⟩
      · rw [h, Set.encard_singleton] at hcard
        exact absurd hcard (by decide)
      · simp [hcard]
      · simpa using (Set.insert_nonempty t {u}).ne_empty
    · rw [hset, hr]
      simp [eq_comm]
    · rw [hset, hr]
      simp [eq_comm]
  refine ⟨houtcomes, fun tx t ht => ?_⟩
  have hmem : tx.clearKeys ∈ preimages tx.serialize :=
    ⟨tx.keyless_clearKeys, tx.serialize_clearKeys⟩
  rw [((houtcomes _).1 t).1 ht] at hmem
  exact (Set.mem_singleton_iff.1 hmem).symm

end Transaction

namespace SerialExample

/-- Two outputs and an input behind a short header, and behind a long one as well. -/
def twofold : Bytes :=
  [0, 0, 2, 1] ++ List.replicate 8 0 ++ [20] ++ List.replicate 4 0 ++ [3] ++
    List.replicate 11 0 ++ [12] ++ List.replicate 61 0

def tx : Transaction := .ofInBounds 1 [⟨9, Block.zero 32, 1, 7, 3, some (Block.zero 33)⟩]
  [⟨8, [0x51, 0x52], by decide⟩] none

end SerialExample

open SerialExample Transaction in
theorem deserialize_exact_twofold :
    deserialize twofold = .error (.wire .invalidEncoding) ∧ (preimages twofold).encard = 2 ∧
      ∃ t, deserialize tx.serialize = .ok t ∧ preimages tx.serialize = {t} ∧ t = tx.clearKeys := by
  have htwo : deserialize twofold = .error (.wire .invalidEncoding) := by decide
  have hone : deserialize tx.serialize = .ok tx.clearKeys := by decide
  obtain ⟨houtcomes, hback⟩ := deserialize_exact
  exact ⟨htwo, (houtcomes twofold).2.1.1 htwo, _, hone, ((houtcomes _).1 _).1 hone, hback _ _ hone⟩

end HardwareSigner
