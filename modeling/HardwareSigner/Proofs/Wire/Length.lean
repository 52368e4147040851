import HardwareSigner.Record.Response
import HardwareSigner.Proofs.Wire.Answers

/-! Typed answers and their lengths. The bytes of an answer are read as a record exactly if they are
what is written for it. With bytes missing at the end, or others behind it, they are no record, and
what is wrong with them is the length: a field is judged once all of it is there, and nothing is
judged behind the fields. -/

namespace HardwareSigner

namespace Reader

variable {α β : Type} {b rest : Bytes}

/-- What a reader makes of bytes that it could read does not change with bytes taken off the end or
put there, except that it may find the length wrong. -/
structure Measured (r : Reader α) : Prop where
  cut : ∀ b more a rest, r (b ++ more) = .ok (a, rest) →
    (∃ mid, rest = mid ++ more ∧ r b = .ok (a, mid)) ∨ r b = .error .invalidLength
  extended : ∀ b more a rest, r b = .ok (a, rest) →
    r (b ++ more) = .ok (a, rest ++ more) ∨ r (b ++ more) = .error .invalidLength

namespace Measured

theorem of_exact {r : Reader α} {written : α → Bytes} {valid : α → Prop} {n : Nat}
    (hr : r.Exact written valid) (hlen : ∀ a, valid a → (written a).length = n)
    (hshort : ∀ b, b.length < n → r b = .error .invalidLength) : r.Measured where
  cut b more a rest h := by
    by_cases hn : b.length < n
    · exact .inr (hshort b hn)
    obtain ⟨ha, happ⟩ := (hr _ _ _).1 h
    have hle : (written a).length ≤ b.length := (hlen a ha).trans_le (Nat.not_lt.1 hn)
    obtain ⟨mid, rfl⟩ : written a <+: b :=
      List.prefix_of_prefix_length_le (happ ▸ List.prefix_append _ rest) (List.prefix_append b more)
        hle
    rw [List.append_assoc, List.append_cancel_left_eq] at happ
    exact .inl ⟨mid, happ.symm, (hr _ _ _).2 ⟨ha, rfl⟩⟩
  extended b more a rest h := by
    obtain ⟨ha, rfl⟩ := (hr _ _ _).1 h
    exact .inl ((hr _ _ _).2 ⟨ha, List.append_assoc ..⟩)

theorem byte : byte.Measured := by
  refine of_exact exact_byte (fun _ _ => rfl) fun b hb => ?_
  obtain rfl := List.length_eq_zero_iff.1 (Nat.lt_one_iff.1 hb)
  rfl

theorem take (n : Nat) : (take n).Measured :=
  of_exact (exact_take n) (fun _ hd => hd) fun _ hb => if_pos hb

theorem block (n : Nat) : (block n).Measured :=
  of_exact (exact_block n) (fun d _ => d.length_bytes) fun _ hb => dif_neg (Nat.not_le.2 hb)

theorem pure (a : α) : (pure a : Reader α).Measured where
  cut b more c rest h := by
    obtain ⟨rfl, rfl⟩ := pure_eq_ok.1 h
    exact .inl ⟨b, rfl, rfl⟩
  extended b more c rest h := by
    obtain ⟨rfl, rfl⟩ := pure_eq_ok.1 h
    exact .inl rfl

theorem refuse (e : WireError) : (refuse e : Reader α).Measured where
  cut _ _ _ _ h := nomatch h
  extended _ _ _ _ h := nomatch h

theorem ending : ending.Measured where
  cut b more u rest h := by
    obtain ⟨happ, rfl⟩ := ending_eq_ok.1 h
    obtain ⟨rfl, rfl⟩ := List.append_eq_nil_iff.1 happ
    exact .inl ⟨[], rfl, rfl⟩
  extended b more u rest h := by
    obtain ⟨rfl, rfl⟩ := ending_eq_ok.1 h
    cases more with
    | nil => exact .inl rfl
    | cons x more => exact .inr rfl

theorem bind {r : Reader α} {f : α → Reader β} (hr : r.Measured) (hf : ∀ a, (f a).Measured) :
    (r >>= f).Measured where
  cut b more c rest h := by
    obtain ⟨a, mid, ha, hc⟩ := bind_ok.1 h
    rcases hr.cut b more a mid ha with ⟨mid, rfl, hb⟩ | hb
    · rw [bind_of_ok hb]
      exact (hf a).cut mid more c rest hc
    · exact .inr (bind_error hb)
  extended b more c rest h := by
    obtain ⟨a, mid, ha, hc⟩ := bind_ok.1 h
    rcases hr.extended b more a mid ha with hb | hb
    · rw [bind_of_ok hb]
      exact (hf a).extended mid more c rest hc
    · exact .inr (bind_error hb)

theorem guard {c : Prop} [Decidable c] {e : WireError} {f : β → Reader α} {r : Reader α}
    (hr : r.Measured) : (if c then Reader.refuse e >>= f else r).Measured := by
  split
  · exact refuse e
  · exact hr

theorem map {r : Reader α} (f : α → β) (hr : r.Measured) : (f <$> r).Measured := by
  rw [← bind_pure_comp]
  exact hr.bind fun a => pure (f a)

theorem lengthPrefixed : lengthPrefixed.Measured := byte.bind fun n => take n.toNat

theorem of_length (n : Nat) (r : Reader α) :
    Measured fun b => if b.length ≠ n then .error .invalidLength else r b where
  cut b more a rest h := by
    cases more with
    | nil => exact .inl ⟨rest, (List.append_nil rest).symm, by rwa [List.append_nil] at h⟩
    | cons x more =>
      split at h
      · cases h
      · rename_i hn
        refine .inr (if_pos ?_)
        rw [List.length_append, List.length_cons] at hn
        omega
  extended b more a rest h := by
    cases more with
    | nil => exact .inl (by rwa [List.append_nil, List.append_nil])
    | cons x more =>
      split at h
      · cases h
      · rename_i hn
        refine .inr (if_pos ?_)
        rw [List.length_append, List.length_cons]
        omega

variable {r : Reader α} {a : α} {whole : Bytes}

/-- Bytes that are a value are none once some are taken off the end or put there. -/
theorem decodeAll_eq_error (hr : r.Measured) (h : r.decodeAll whole = .ok a) (hne : b ≠ whole)
    (hfit : b <+: whole ∨ whole <+: b) : r.decodeAll b = .error .invalidLength := by
  rw [decodeAll_eq_ok] at h
  rcases hfit with ⟨more, rfl⟩ | ⟨more, rfl⟩
  · rcases hr.cut b more a [] h with ⟨mid, hnil, -⟩ | hb
    · obtain ⟨-, rfl⟩ := List.append_eq_nil_iff.1 hnil.symm
      exact absurd (List.append_nil b).symm hne
    · rw [decodeAll, hb]
  · rcases hr.extended whole more a [] h with hb | hb
    · rw [decodeAll, hb]
      cases more with
      | nil => exact absurd (List.append_nil whole) hne
      | cons x more => rfl
    · rw [decodeAll, hb]

end Measured

end Reader

namespace Response

open Reader

theorem measured_version : (Record.read : Reader AppVersion).Measured :=
  .bind .byte fun _ => .bind .byte fun _ => .bind .byte fun _ => .pure _

theorem measured_readText : AppInfo.readText.Measured := by
  refine .bind .lengthPrefixed fun d => ?_
  cases Bytes.toText? d with
  | none => exact .refuse _
  | some s => exact .pure s

theorem measured_appInfo : AppInfo.read.Measured :=
  .bind .byte fun _ => .guard <| .bind measured_readText fun _ => .bind measured_readText fun _ =>
    .bind .lengthPrefixed fun _ => .pure _

theorem measured_publicKey : PublicKey.read.Measured := .of_length PublicKey.layoutLength _

theorem measured_txSignature : TxSignature.read.Measured := by
  refine .bind .byte fun flag => .bind .byte fun index => .bind .byte fun code =>
    .bind .byte fun n => ?_
  cases TxSignature.readFlag flag with
  | none => exact .refuse _
  | some more =>
    cases SignatureScheme.ofCode? code with
    | none => exact .refuse _
    | some scheme =>
      refine .guard <| .bind (.take n.toNat) fun signature => .bind .byte fun recovery =>
        .bind (.block 32) fun sighash => .bind .ending fun _ => ?_
      split
      · exact .pure _
      · exact .refuse _

theorem measured_messageSignature : MessageSignature.read.Measured := by
  refine .bind .lengthPrefixed fun signature => ?_
  split
  · refine .bind .lengthPrefixed fun hash => ?_
    cases Block.ofBytes? 32 hash with
    | none => exact .refuse _
    | some hash => exact .bind .ending fun _ => .pure _
  · exact .refuse _

/-- A name takes what there is, so it cannot tell that something is missing. -/
theorem measured_read {k : ResponseKind} (hk : k ≠ .appName) : (read k).Measured := by
  cases k with
  | version => exact measured_version.map _
  | appName => exact absurd rfl hk
  | appAndVersion => exact measured_appInfo.map _
  | publicKey => exact measured_publicKey.map _
  | txSignature => exact measured_txSignature.map _
  | messageSignature => exact measured_messageSignature.map _

/-- Every field fits the length that stands before it, and a key has the one format byte. -/
def Fits : Response → Prop
  | appAndVersion i => i.Fits
  | publicKey k => k.key.bytes.head? = some PublicKey.uncompressed
  | _ => True

def layout : Response → Bytes
  | version r => r.layout
  | appName r => r.layout
  | appAndVersion r => r.layout
  | publicKey r => r.layout
  | txSignature r => r.layout
  | messageSignature r => r.layout

theorem encode_eq {r : Response} (h : r.Fits) : r.encode = .ok r.layout := by
  cases r with
  | appAndVersion i => exact AppInfo.encode_eq h
  | _ => rfl

theorem decode_of_inverts {α : Type} [Record α] {kind : ResponseKind} {make : α → Response}
    {written : α → Bytes} {valid : α → Prop} (hkind : read kind = make <$> Record.read)
    (hread : (Record.read : Reader α).Inverts written valid) {b : Bytes} {r : Response} :
    decode kind b = .ok r ↔ ∃ a, make a = r ∧ valid a ∧ b = written a := by
  simp only [decode, hkind, decodeAll_map_eq_ok, hread.decodeAll_eq_ok]
  exact exists_congr fun a => And.comm

/-- An answer is read from what is written for a record of its kind, and from nothing else. -/
theorem decode_eq_ok {k : ResponseKind} {b : Bytes} {r : Response} :
    decode k b = .ok r ↔ r.kind = k ∧ r.Fits ∧ b = r.layout := by
  cases k with
  | version =>
    rw [decode_of_inverts rfl AppVersion.exact_read.inverts]
    cases r <;> simp [kind, Fits, layout]
  | appName =>
    rw [decode_of_inverts rfl (.of_whole_total fun _ _ _ => AppName.read_eq_ok)]
    cases r <;> simp [kind, Fits, layout]
  | appAndVersion =>
    rw [decode_of_inverts rfl AppInfo.exact_read.inverts]
    cases r <;> simp [kind, Fits, layout]
  | publicKey =>
    rw [decode_of_inverts rfl (.of_whole fun _ _ _ => PublicKey.read_eq_ok)]
    cases r <;> simp [kind, Fits, layout]
  | txSignature =>
    rw [decode_of_inverts rfl (.of_whole_total fun _ _ _ => TxSignature.read_eq_ok)]
    cases r <;> simp [kind, Fits, layout]
  | messageSignature =>
    rw [decode_of_inverts rfl (.of_whole_total fun _ _ _ => MessageSignature.read_eq_ok)]
    cases r <;> simp [kind, Fits, layout]

/-- The data of an answer is read as a record exactly if it is what is written for one of the kind
that was asked for. Unless it is a name, which ends where the data ends, what is written for a
record is none without its last bytes or with others behind it, and it is its length that is wrong.
-/
theorem decode_exact (k : ResponseKind) :
    (∀ (b : Bytes) (r : Response), decode k b = .ok r ↔ r.kind = k ∧ r.Fits ∧ r.encode = .ok b) ∧
    (k ≠ .appName → ∀ (r : Response) (e : Bytes), r.kind = k → r.Fits → r.encode = .ok e →
      ∀ b, b ≠ e → b <+: e ∨ e <+: b → decode k b = .error .invalidLength) := by
  have hiff : ∀ (b : Bytes) (r : Response),
      decode k b = .ok r ↔ r.kind = k ∧ r.Fits ∧ r.encode = .ok b := by
    intro b r
    rw [decode_eq_ok]
    refine and_congr_right fun _ => and_congr_right fun hfits => ?_
    rw [encode_eq hfits, Except.ok.injEq, eq_comm]
  refine ⟨hiff, fun hk r e hkind hfits hencode b hne hb => ?_⟩
  exact (measured_read hk).decodeAll_eq_error ((hiff e r).2 ⟨hkind, hfits, hencode⟩) hne hb

end Response

namespace ResponseExample

def signature : TxSignature where
  hasMore := false
  inputIndex := 3
  scheme := .ecdsa
  signature := List.replicate maxSignature 1
  length_signature := by simp
  recoveryId := 1
  sighash := Block.zero 32

end ResponseExample

open ResponseExample Response in
/-- A signature without its last byte, one with a byte behind it, and what is left of one once its
own length byte is gone. -/
theorem decode_exact_signature :
    decode .txSignature signature.layout = .ok (.txSignature signature) ∧
    decode .txSignature (signature.layout ++ [0]) = .error .invalidLength ∧
    decode .txSignature signature.layout.dropLast = .error .invalidLength ∧
    decode .txSignature (signature.layout.take 3) = .error .invalidLength := by
  obtain ⟨hread, hlength⟩ := decode_exact .txSignature
  have hwrong := hlength (by decide) (.txSignature signature) signature.layout rfl trivial rfl
  have hlen : signature.layout.length = 4 + maxSignature + 33 := by decide
  have hne : ∀ b : Bytes, b.length ≠ 4 + maxSignature + 33 → b ≠ signature.layout := by
    rintro _ hb rfl
    exact hb hlen
  refine ⟨(hread _ _).2 ⟨rfl, trivial, rfl⟩, hwrong _ (hne _ ?_) (.inr (List.prefix_append _ _)),
    hwrong _ (hne _ ?_) (.inl (List.dropLast_prefix _)),
    hwrong _ (hne _ ?_) (.inl (List.take_prefix _ _))⟩
  · rw [List.length_append, hlen]
    decide
  · rw [List.length_dropLast, hlen]
    decide
  · rw [List.length_take, hlen]
    decide

end HardwareSigner
