import HardwareSigner.Proofs.Wire.Answers

/-! Nothing is lost on the wire. A record that fits is written in as many bytes as were counted for
it and read back from them; bytes that are read as a record are what is written for that record, so
it has no second form. This is said of every kind of record, whichever way it is told where it
ends. -/

namespace HardwareSigner

namespace Record

/-- Both ways between a record and its bytes. `fits` says which records have a wire form, and
`carried` what of one is on the wire. -/
structure Lossless (α : Type) [Record α] (fits : α → Prop) (carried : α → α) : Prop where
  /-- What fits is written into any buffer with room for as many bytes as are counted for it, takes
  just these, and is read back from them. -/
  read_back : ∀ r, fits r → ∃ n, encodedLength r = .ok n ∧ ∀ room, n ≤ room →
    ∃ b, encodeInto r room = .ok b ∧ b.length = n ∧ decode b = .ok (carried r, n)
  /-- The bytes that were read as a record are those that it is written as. -/
  written_back : ∀ b (r : α) n, decode b = .ok (r, n) → n ≤ b.length ∧ encodedLength r = .ok n ∧
    ∀ room, n ≤ room → encodeInto r room = .ok (b.take n)
  /-- Bytes that were read as the same record are the same. -/
  single : ∀ b b' (r : α) n n', decode b = .ok (r, n) → decode b' = .ok (r, n') →
    b.take n = b'.take n'

variable {α : Type} [Record α] {fits valid : α → Prop} {carried : α → α} {written : α → Bytes}

theorem encodeInto_eq {r : α} {room : Nat} (hlen : encodedLength r = .ok (written r).length)
    (henc : encode r = .ok (written r)) (hroom : (written r).length ≤ room) :
    encodeInto r room = .ok (written r) := by
  rw [encodeInto, hlen, henc]
  simp [bind, Except.bind, Nat.not_lt.2 hroom]

/-- The count of the bytes taken, in place of the bytes left. -/
theorem decode_eq_ok {b : Bytes} {r : α} {n : Nat} :
    decode b = .ok (r, n) ↔ ∃ rest, read b = .ok (r, rest) ∧ n = b.length - rest.length := by
  unfold decode Reader.decode
  split
  · rename_i a rest hread
    simp [hread, eq_comm]
  · rename_i e hread
    simp [hread]

/-- A record is lossless if its reader inverts what is written for it. -/
theorem Lossless.of_inverts (hread : (read : Reader α).Inverts written valid)
    (hfits : ∀ r, valid r → fits r)
    (hcarried : ∀ r, fits r → valid (carried r) ∧ written (carried r) = written r)
    (henc : ∀ r, fits r → encode r = .ok (written r))
    (hlen : ∀ r, fits r → encodedLength r = .ok (written r).length) :
    Lossless α fits carried := by
  have hwritten : ∀ b (r : α) n, decode b = .ok (r, n) → n ≤ b.length ∧ encodedLength r = .ok n ∧
      ∀ room, n ≤ room → encodeInto r room = .ok (b.take n) := by
    intro b r n h
    obtain ⟨rest, hr, rfl⟩ := decode_eq_ok.1 h
    obtain ⟨hvalid, rfl⟩ := hread.of_read _ _ _ hr
    have hr := hfits r hvalid
    rw [List.length_append, Nat.add_sub_cancel]
    refine ⟨Nat.le_add_right _ _, hlen r hr, fun room hroom => ?_⟩
    rw [List.take_left, encodeInto_eq (hlen r hr) (henc r hr) hroom]
  refine ⟨fun r hr => ?_, hwritten, fun b b' r n n' h h' => ?_⟩
  · obtain ⟨hvalid, hsame⟩ := hcarried r hr
    refine ⟨_, hlen r hr, fun room hroom => ?_⟩
    refine ⟨_, encodeInto_eq (hlen r hr) (henc r hr) hroom, rfl, ?_⟩
    rw [← hsame]
    exact decode_eq_ok.2 ⟨[], hread.of_written _ hvalid, rfl⟩
  · obtain ⟨-, hn, hb⟩ := hwritten b r n h
    obtain ⟨-, hn', hb'⟩ := hwritten b' r n' h'
    obtain rfl : n = n' := Except.ok.inj (hn.symm.trans hn')
    exact Except.ok.inj ((hb n le_rfl).symm.trans (hb' n le_rfl))

theorem Lossless.of_fitting (hread : (read : Reader α).Inverts written fits)
    (henc : ∀ r, fits r → encode r = .ok (written r))
    (hlen : ∀ r, fits r → encodedLength r = .ok (written r).length) : Lossless α fits id :=
  of_inverts hread (fun _ h => h) (fun _ h => ⟨h, rfl⟩) henc hlen

theorem Lossless.of_total (hread : (read : Reader α).Inverts written fun _ => True)
    (henc : ∀ r : α, encode r = .ok (written r))
    (hlen : ∀ r : α, encodedLength r = .ok (written r).length) :
    Lossless α (fun _ => True) id :=
  of_fitting hread (fun r _ => henc r) fun r _ => hlen r

end Record

theorem Reader.inverts_pure {α : Type} (a : α) (h : ∀ c, c = a) :
    (pure a : Reader α).Inverts (fun _ => []) fun _ => True where
  of_written c _ := by rw [h c]; rfl
  of_read b c rest hr := by
    obtain ⟨rfl, rfl⟩ := Reader.pure_eq_ok.1 hr
    exact ⟨trivial, rfl⟩

open Record in
/-- Every record of the protocol is lossless. Texts, scripts, messages and flags that stand behind a
length fit if it can count them; a key has the one format byte; and how a key is to be shown is not
on the wire. -/
theorem records_lossless :
    Lossless VersionQuery (fun _ => True) id ∧ Lossless NameQuery (fun _ => True) id ∧
    Lossless AppInfoQuery (fun _ => True) id ∧ Lossless NextSignatureQuery (fun _ => True) id ∧
    Lossless AppVersion (fun _ => True) id ∧ Lossless AppName (fun _ => True) id ∧
    Lossless AppInfo AppInfo.Fits id ∧ Lossless DerivationPath (fun _ => True) id ∧
    Lossless PublicKeyRequest (fun _ => True) (fun r => { r with display := false }) ∧
    Lossless PublicKey (fun k => k.key.bytes.head? = some PublicKey.uncompressed) id ∧
    Lossless MessageRequest (fun r => r.message.length ≤ 255) id ∧
    Lossless MessageSignature (fun _ => True) id ∧ Lossless TxHeader (fun _ => True) id ∧
    Lossless TxOutput (fun o => o.script.length ≤ 255) id ∧
    Lossless TxInput (fun _ => True) id ∧ Lossless TxSignature (fun _ => True) id ∧
    Lossless Frame (fun _ => True) id ∧ Lossless Answer (fun _ => True) id := by
  refine ⟨?version, ?name, ?appInfo, ?next, ?appVersion, ?appName, ?info, ?path, ?keyRequest, ?key,
    ?messageRequest, ?messageSignature, ?header, ?output, ?input, ?signature, ?frame, ?answer⟩
  case version => exact .of_total (Reader.inverts_pure _ fun _ => rfl) (fun _ => rfl) fun _ => rfl
  case name => exact .of_total (Reader.inverts_pure _ fun _ => rfl) (fun _ => rfl) fun _ => rfl
  case appInfo => exact .of_total (Reader.inverts_pure _ fun _ => rfl) (fun _ => rfl) fun _ => rfl
  case next => exact .of_total (Reader.inverts_pure _ fun _ => rfl) (fun _ => rfl) fun _ => rfl
  case appVersion => exact .of_total AppVersion.exact_read.inverts (fun _ => rfl) fun _ => rfl
  case appName =>
    exact .of_total (.of_whole_total fun _ _ _ => AppName.read_eq_ok) (fun _ => rfl) fun _ => rfl
  case info =>
    refine .of_fitting AppInfo.exact_read.inverts (fun _ => AppInfo.encode_eq) fun i _ => ?_
    simp [encodedLength, AppInfo.layout, AppInfo.field]
    omega
  case path => exact .of_total DerivationPath.exact_read.inverts (fun _ => rfl) fun _ => rfl
  case keyRequest =>
    exact .of_inverts (.of_whole fun _ _ _ => PublicKeyRequest.read_eq_ok) (fun _ _ => trivial)
      (fun _ _ => ⟨rfl, rfl⟩) (fun _ _ => rfl) fun _ _ => rfl
  case key =>
    exact .of_fitting (.of_whole fun _ _ _ => PublicKey.read_eq_ok) (fun _ _ => rfl)
      fun _ _ => rfl
  case messageRequest =>
    exact .of_fitting MessageRequest.exact_read.inverts (fun _ => MessageRequest.encode_eq)
      fun _ h => congrArg (·.map List.length) (MessageRequest.encode_eq h)
  case messageSignature =>
    exact .of_total (.of_whole_total fun _ _ _ => MessageSignature.read_eq_ok) (fun _ => rfl)
      fun _ => rfl
  case header =>
    exact .of_total (.of_whole_total fun _ _ _ => TxHeader.read_eq_ok) (fun _ => rfl) fun _ => rfl
  case output =>
    exact .of_fitting TxOutput.exact_read.inverts (fun _ => TxOutput.encode_eq)
      fun _ h => congrArg (·.map List.length) (TxOutput.encode_eq h)
  case input => exact .of_total TxInput.exact_read.inverts (fun _ => rfl) fun _ => rfl
  case signature =>
    exact .of_total (.of_whole_total fun _ _ _ => TxSignature.read_eq_ok) (fun _ => rfl)
      fun _ => rfl
  case frame =>
    exact .of_total (.of_whole_total fun _ _ _ => Frame.read_eq_ok) (fun _ => rfl) fun _ => rfl
  case answer =>
    exact .of_total (.of_whole_total fun _ _ _ => Answer.read_eq_ok) (fun _ => rfl) fun _ => rfl

end HardwareSigner
