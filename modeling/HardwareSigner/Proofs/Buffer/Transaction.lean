import HardwareSigner.Buffer.Transaction
import HardwareSigner.Proofs.Buffer.Records
import HardwareSigner.Proofs.Transaction.Serial

/-! Records one behind the other are found where the ones before them end, and no place behind the
bytes is looked at. So a transaction and a message come out of a buffer as they are read off it. -/

namespace HardwareSigner

open Buffer Reader

/-- The record at the front of a row, and the place where the others begin. -/
theorem Ranged.row_succ {α β : Type} [Record α] [Codec α] (h : Ranged α)
    (hread : (Record.read : Reader α).Advances) {make : α → Except ClientError β} {a : α} {x : β}
    {b rest : Bytes} (hb : (Record.read : Reader α) b = .ok (a, rest)) (hx : make a = .ok x)
    (n : Nat) : row make (n + 1) b = row make n rest >>= fun q => .ok (x :: q.1, q.2) := by
  have hrest : rest = b.drop (b.length - rest.length) :=
    List.suffix_iff_eq_drop.1 (hread b a rest hb)
  rw [row, (h.parse b).eq_of, Record.decode, decode_eq_map, hb]
  change (Outcome.of (make a) >>= fun x => onFrom b (b.length - rest.length) >>= fun d =>
    row make n d >>= fun q => Outcome.ok (x :: q.1, q.2)) = _
  rw [hx, Outcome.of_ok, Outcome.ok_bind, onFrom_eq (Nat.sub_le _ _), ← hrest, Outcome.ok_bind]

/-- A row of records ends as a reader of so many does, if each that is read is of use. -/
theorem Ranged.row_cases {α β : Type} [Record α] [Codec α] (h : Ranged α)
    (hread : (Record.read : Reader α).Advances) (make : α → Except ClientError β)
    (hmake : ∀ b a rest, (Record.read : Reader α) b = .ok (a, rest) → ∃ x, make a = .ok x)
    (n : Nat) (b : Bytes) :
    (∃ e, (Record.read : Reader α).times n b = .error e ∧ row make n b = .error (.wire e)) ∨
    ∃ as xs rest, (Record.read : Reader α).times n b = .ok (as, rest) ∧ as.mapM make = .ok xs ∧
      row make n b = .ok (xs, rest) := by
  induction n generalizing b with
  | zero => exact .inr ⟨[], [], b, rfl, rfl, rfl⟩
  | succ n ih =>
    rw [Reader.times]
    cases hb : (Record.read : Reader α) b with
    | error e =>
      refine .inl ⟨e, bind_error hb, ?_⟩
      rw [row, (h.parse b).eq_of, Record.decode, decode_eq_map, hb]
      rfl
    | ok p =>
      obtain ⟨a, rest⟩ := p
      obtain ⟨x, hx⟩ := hmake b a rest hb
      rw [bind_of_ok hb, h.row_succ hread hb hx]
      rcases ih rest with ⟨e, htimes, hrow⟩ | ⟨as, xs, tail, htimes, hxs, hrow⟩
      · rw [hrow]
        exact .inl ⟨e, bind_error htimes, rfl⟩
      · rw [hrow]
        refine .inr ⟨a :: as, x :: xs, tail, bind_of_ok htimes, ?_, rfl⟩
        rw [mapM_eq_ok] at hxs ⊢
        exact .cons hx hxs

theorem TransactionOutput.exists_ofRecord {b rest : Bytes} {o : TxOutput}
    (h : TxOutput.read b = .ok (o, rest)) : ∃ t, ofRecord o = .ok t := by
  obtain ⟨hlen, -⟩ := (TxOutput.exact_read _ _ _).1 h
  exact ⟨⟨o.value, o.script, hlen⟩, dif_pos hlen⟩

namespace Transaction

theorem parseBody_eq (h : TxHeader) (b : Bytes) : parseBody h b = .of (ofHeader h b) := by
  have houts := TxOutput.ranged.row_cases TxOutput.advances TransactionOutput.ofRecord
    (fun _ _ _ => TransactionOutput.exists_ofRecord) h.numOutputs.toNat b
  rw [parseBody, ofHeader, decodeAll]
  rcases houts with ⟨e, htimes, hrow⟩ | ⟨outs, os, mid, htimes, hos, hrow⟩
  · rw [hrow, show readBody h b = .error e from bind_error htimes]
    rfl
  have hins := TxInput.ranged.row_cases TxInput.advances
    (fun i => .ok (TransactionInput.ofRecord i)) (fun _ _ _ _ => ⟨_, rfl⟩)
    h.numInputs.toNat mid
  rw [hrow, Outcome.ok_bind]
  rcases hins with ⟨e, htimes', hrow'⟩ | ⟨ins, is, rest, htimes', his, hrow'⟩
  · rw [show readBody h b = .error e from (bind_of_ok htimes).trans (bind_error htimes')]
    simp only [hrow']
    rfl
  · rw [show readBody h b = .ok ((outs, ins), rest) from
      (bind_of_ok htimes).trans (bind_of_ok htimes')]
    obtain rfl : is = ins.map TransactionInput.ofRecord :=
      Except.ok.inj (his.symm.trans List.mapM_pure)
    simp only [hrow', Outcome.ok_bind]
    cases rest with
    | cons x rest => rfl
    | nil =>
      change (Outcome.of (ofParts _ _ _) >>= _) = Outcome.of (outs.mapM _ >>= _)
      rw [hos]
      exact (Outcome.of_bind _ fun tx : Transaction => .ok (tx.withChange h.change)).symm

/-- Four bytes are a header, and so are nine. -/
theorem exists_header {b : Bytes} (hb : b.length = 4 ∨ b.length = 9) :
    ∃ h, Codec.parse b = .ok (h, b.length) ∧ TxHeader.read.decodeAll b = .ok h := by
  have hlen : 4 ≤ b.length := by omega
  obtain ⟨c, hc⟩ : ∃ c, TxHeader.parseChange b = .ok c := by
    rcases hb with hb | hb
    · exact ⟨_, TxHeader.parseChange_of_short hb⟩
    · exact ⟨_, TxHeader.parseChange_of_long hb⟩
  let h : TxHeader := ⟨UInt16.ofNat (Bytes.toNatBE ((b.drop 0).take 2)), b[2], b[3], c⟩
  have hparse : Codec.parse b = .ok (h, b.length) := by
    change (TxHeader.parseChange b >>= _) = _
    rw [hc, Outcome.ok_bind, between_eq (n := 2) rfl (by omega), Outcome.ok_bind,
      word_eq (length_take_drop (by omega)), Outcome.ok_bind, get_eq (by omega), Outcome.ok_bind,
      get_eq (by omega)]
    rfl
  have hdecode : (Record.decode b : Except WireError (TxHeader × Nat)) = .ok (h, b.length) :=
    Outcome.of_eq_ok.1 ((TxHeader.ranged.parse b).eq_of.symm.trans hparse)
  obtain ⟨rest, hread, -⟩ := Record.decode_eq_ok.1 hdecode
  exact ⟨h, hparse, TxHeader.decodeAll_eq_ok.2 (TxHeader.read_eq_ok.1 hread).1⟩

variable {b : Bytes} {found : Option Transaction} {n : Nat} {ns : List Nat}

theorem parseSplits_of_lt (h : b.length < n) :
    parseSplits b found (n :: ns) = parseSplits.conclude found := if_pos h

theorem ofSplit?_of_lt (h : b.length < n) : ofSplit? n b = none := if_pos h

/-- A header of a length that there is goes with one way to read what is behind it. -/
theorem parseSplits_of_le (hn : n = 4 ∨ n = 9) (h : n ≤ b.length) :
    parseSplits b found (n :: ns) =
      match ofSplit? n b with
      | some tx => if found.isSome then .error (.wire .invalidEncoding)
        else parseSplits b (some tx) ns
      | none => parseSplits b found ns := by
  have hlen := List.length_take_of_le h
  obtain ⟨header, hparse, hread⟩ := exists_header (b := b.take n) (by omega)
  rw [parseSplits, if_neg (Nat.not_lt.2 h), upTo_eq h, Outcome.ok_bind, hparse]
  rw [Outcome.mapError_ok, Outcome.ok_bind]
  dsimp only
  rw [onFrom_eq h, Outcome.ok_bind, parseBody_eq, ofSplit?, if_neg (Nat.not_lt.2 h), hread]
  dsimp only
  cases ofHeader header (b.drop n) with
  | error e => rfl
  | ok tx => rfl

theorem parse_eq (b : Bytes) : parse b = .of (deserialize b) := by
  have hshort : TxHeader.shortLength = 4 := rfl
  have hlong : TxHeader.longLength = 9 := rfl
  rw [parse, deserialize, hshort, hlong]
  by_cases h4 : b.length < 4
  · rw [parseSplits_of_lt h4, ofSplit?_of_lt h4, ofSplit?_of_lt (h4.trans (by decide))]
    rfl
  rw [parseSplits_of_le (.inl rfl) (Nat.le_of_not_lt h4)]
  by_cases h9 : b.length < 9
  · rw [ofSplit?_of_lt h9]
    cases ofSplit? 4 b with
    | none => exact parseSplits_of_lt h9
    | some tx => exact parseSplits_of_lt h9
  have hle := Nat.le_of_not_lt h9
  cases ofSplit? 4 b with
  | none =>
    dsimp only
    rw [parseSplits_of_le (.inr rfl) hle]
    cases ofSplit? 9 b <;> rfl
  | some tx =>
    dsimp only
    rw [Option.isSome_none, if_neg Bool.false_ne_true, parseSplits_of_le (.inr rfl) hle]
    cases ofSplit? 9 b <;> rfl

theorem parsePayloads_eq (ps : List Bytes) : parsePayloads ps = .of (ofPayloads ps) := by
  cases ps with
  | nil => rfl
  | cons start rest =>
    rw [parsePayloads, TxHeader.ranged.whole_eq TxHeader.advances, ofPayloads, Outcome.of_bind]
    change (Outcome.of (TxHeader.read.decodeAll start)).mapError _ >>= _ = _
    cases TxHeader.read.decodeAll start with
    | error e => rfl
    | ok h => exact parseBody_eq h rest.flatten

end Transaction

theorem PersonalMessage.parse_eq (b : Bytes) :
    PersonalMessage.parse b = .of (PersonalMessage.deserialize b) := by
  rw [parse, MessageRequest.ranged.whole_eq MessageRequest.advances, deserialize, Outcome.of_bind]
  change (Outcome.of (MessageRequest.read.decodeAll b)).mapError _ >>= _ = _
  cases MessageRequest.read.decodeAll b with
  | error e => rfl
  | ok r =>
    have hlift : ClientError.liftWire (Except.ok r) = .ok r := rfl
    rw [Outcome.of_ok, Outcome.mapError_ok, Outcome.ok_bind, hlift, Outcome.of_ok, Outcome.ok_bind]
    cases Bytes.toText? r.message with
    | none => rfl
    | some text =>
      dsimp only
      rw [Outcome.of_bind]
      rfl

end HardwareSigner
