import HardwareSigner.Proofs.Buffer.Ranged

/-! No record reaches for a place that is not there, whatever bytes it is looked for in and however
long the buffer is that it is written into. What it gives and what it writes is what a reader takes
off the front of the bytes and what stands on the wire. -/

namespace HardwareSigner

open Buffer

/-! ### Queries -/

theorem VersionQuery.ranged : Ranged VersionQuery :=
  .of_empty {} (fun _ => rfl) (fun _ => rfl) (fun _ => rfl) (fun _ => rfl) rfl fun _ => rfl

theorem NameQuery.ranged : Ranged NameQuery :=
  .of_empty {} (fun _ => rfl) (fun _ => rfl) (fun _ => rfl) (fun _ => rfl) rfl fun _ => rfl

theorem AppInfoQuery.ranged : Ranged AppInfoQuery :=
  .of_empty {} (fun _ => rfl) (fun _ => rfl) (fun _ => rfl) (fun _ => rfl) rfl fun _ => rfl

theorem NextSignatureQuery.ranged : Ranged NextSignatureQuery :=
  .of_empty {} (fun _ => rfl) (fun _ => rfl) (fun _ => rfl) (fun _ => rfl) rfl fun _ => rfl

/-! ### The application -/

open Reader

namespace AppVersion

theorem writes (v : AppVersion) : Writes (Codec.write v) (.ok v.layout) := by
  refine .of_at fun buff => ?_
  refine (writes_byte v.major).at_bind_ok rfl (Nat.zero_le _) fun hmajor => ?_
  refine (writes_byte v.minor).at_bind_ok rfl hmajor fun hminor => ?_
  exact (writes_byte v.patch).at rfl hminor

theorem parse_eq (b : Bytes) : (Codec.parse b : Outcome WireError (AppVersion × Nat)) =
    .of (Record.decode b) := by
  have hbyte := exact_byte.inverts.advances
  refine (Follows.field parseByte_eq hbyte (Nat.zero_le _) fun major i hi => ?_).eq_decode
  refine .field parseByte_eq hbyte hi fun minor i hi => ?_
  refine .field parseByte_eq hbyte hi fun patch i hi => ?_
  exact .pure hi

theorem ranged : Ranged AppVersion :=
  .of_writes (.of_layout (fun _ => rfl) fun _ => rfl) (fun _ => rfl) writes parse_eq

theorem advances : (Record.read : Reader AppVersion).Advances :=
  exact_read.inverts.advances

end AppVersion

namespace AppName

theorem writes (r : AppName) : Writes (Codec.write r) (.ok r.layout) :=
  .of_room rfl fun _ h => .bind (.copy rfl rfl (by omega)) (.pure _)

theorem parse_eq (b : Bytes) : (Codec.parse b : Outcome WireError (AppName × Nat)) =
    .of (Record.decode b) := by
  rw [Record.decode, decode_eq_map]
  simp only [Codec.parse, Record.read]
  cases Bytes.toText? b with
  | none => rfl
  | some name => rfl

theorem ranged : Ranged AppName :=
  .of_writes (.of_layout (fun _ => rfl) fun _ => rfl) (fun _ => rfl) writes parse_eq

theorem advances : (Record.read : Reader AppName).Advances :=
  (Inverts.of_whole_total fun _ _ _ => read_eq_ok).advances

end AppName

namespace AppInfo

/-- The bytes behind the format, field by field. -/
theorem encode_eq_bind (r : AppInfo) : r.encode = ([format] ++ ·) <$> (do
    let name ← Bytes.lengthPrefixed (Bytes.ofText r.name)
    let tail ← Bytes.lengthPrefixed (Bytes.ofText r.version) >>= fun version =>
      Bytes.lengthPrefixed r.flags >>= fun flags => pure (version ++ flags)
    pure (name ++ tail)) := by
  rw [encode]
  cases Bytes.lengthPrefixed (Bytes.ofText r.name) with
  | error e => rfl
  | ok name =>
    cases Bytes.lengthPrefixed (Bytes.ofText r.version) with
    | error e => rfl
    | ok version =>
      cases Bytes.lengthPrefixed r.flags with
      | error e => rfl
      | ok flags => simp [bind, Except.bind, pure, Except.pure]

/-- Nothing else is wrong with a field than its length. -/
theorem eq_invalidLength_of_bind {α : Type} {d : Bytes} {f : Bytes → Except WireError α}
    {e : WireError} (hf : ∀ b e, f b = .error e → e = .invalidLength)
    (h : Bytes.lengthPrefixed d >>= f = .error e) : e = .invalidLength := by
  unfold Bytes.lengthPrefixed at h
  split at h
  · exact hf _ e h
  · cases h
    rfl

theorem counted : Record.Counted AppInfo where
  of_ok r d h := by
    simp only [Record.encode, encode, bind_eq_ok, Bytes.lengthPrefixed_eq_ok] at h
    obtain ⟨name, ⟨-, rfl⟩, version, ⟨-, rfl⟩, flags, ⟨-, rfl⟩, ⟨⟩⟩ := h
    simp [Record.encodedLength]
    omega
  of_error r e := by
    refine eq_invalidLength_of_bind fun name e => ?_
    refine eq_invalidLength_of_bind fun version e => ?_
    exact eq_invalidLength_of_bind nofun
  missing r e h := nomatch h

theorem writes (r : AppInfo) : Writes (Codec.write r) r.encode := by
  intro buff
  rw [encode_eq_bind]
  change (if buff.length = 0 then refuse .invalidLength >>= _ else put 0 format >>= _ :
    Writer Nat) buff = _
  by_cases h : buff.length = 0
  · rw [if_pos h, laid_cons_of_empty h]
    rfl
  · rw [if_neg h]
    have hformat : Lays buff [] (put 0 format) () [format] := .put rfl (Nat.pos_of_ne_zero h)
    refine hformat.writes ?_
    refine (writes_prefixed _).at_bind rfl (Nat.pos_of_ne_zero h) fun name _ hname => ?_
    refine (writes_prefixed _).at_bind (by simp; omega) hname fun version _ hversion => ?_
    exact (writes_prefixed _).at (by simp; omega) hversion

theorem exact_readText : readText.Exact (fun s => field (Bytes.ofText s)) fun s =>
    (Bytes.ofText s).length ≤ 255 := fun _ _ _ => readText_eq_ok

theorem parseText_eq (b : Bytes) : parseText b = .of (readText.decode b) := by
  rw [parseText, parsePrefixed_eq, decode_eq_map, decode_eq_map, readText]
  cases hd : lengthPrefixed b with
  | error e =>
    rw [bind_error hd]
    rfl
  | ok p =>
    obtain ⟨d, rest⟩ := p
    rw [bind_of_ok hd]
    simp only [Except.map, Outcome.of_ok, Outcome.ok_bind, text]
    cases Bytes.toText? d with
    | none => rfl
    | some s => rfl

theorem parse_eq (b : Bytes) : (Codec.parse b : Outcome WireError (AppInfo × Nat)) =
    .of (Record.decode b) := by
  cases b with
  | nil => rfl
  | cons f b =>
    refine Follows.eq_decode (r := read) ?_
    refine .read (byte_drop (b := f :: b) (Nat.succ_pos _)) ?_
    have htext := exact_readText.inverts.advances
    simp only [bne_iff_ne, List.getElem_cons_zero]
    refine .guard fun _ => ?_
    refine .field parseText_eq htext (Nat.succ_le_succ (Nat.zero_le _)) fun name i hi => ?_
    refine .field parseText_eq htext hi fun version i hi => ?_
    refine .field parsePrefixed_eq exact_lengthPrefixed.inverts.advances hi fun flags i hi => ?_
    exact .pure hi

theorem ranged : Ranged AppInfo := .of_writes counted (fun _ => rfl) writes parse_eq

theorem advances : (Record.read : Reader AppInfo).Advances :=
  exact_read.inverts.advances

end AppInfo

/-! ### Paths and keys -/

namespace DerivationPath

/-- The steps go one by one behind those written before. -/
theorem lays_elements {buff w : Bytes} {i : Nat} (es : List UInt32) (hi : w.length = 1 + i * 4)
    (h : w.length + es.length * 4 ≤ buff.length) :
    Lays buff w (writeElements i es) () (w ++ es.flatMap Bytes.ofUInt32BE) := by
  induction es generalizing w i with
  | nil =>
    rw [List.flatMap_nil, List.append_nil]
    exact .pure ()
  | cons e es ih =>
    rw [List.length_cons] at h
    have hstep : Lays buff w (copy (1 + i * 4) 4 (Bytes.ofUInt32BE e)) ()
        (w ++ Bytes.ofUInt32BE e) := .copy hi.symm (Bytes.length_ofUInt32BE e).symm (by omega)
    rw [List.flatMap_cons, ← List.append_assoc]
    exact hstep.bind (ih (by simp; omega) (by simp; omega))

theorem writes (p : DerivationPath) : Writes (Codec.write p) (.ok p.layout) := by
  refine .of_room p.length_layout fun buff h => ?_
  have hdepth : Lays buff [] (put 0 (UInt8.ofNat p.depth)) () [UInt8.ofNat p.depth] :=
    .put rfl (by omega)
  have helements := lays_elements (w := [UInt8.ofNat p.depth]) (i := 0) p.elements rfl h
  exact hdepth.bind <| helements.bind <| .pure _

/-- Each step is read where the steps before it end, and there is a place for it in the path. -/
theorem takeElements_eq {b : Bytes} (n : Nat) (p : DerivationPath) (hp : p.depth + n ≤ maxDepth)
    (h : 1 + (p.depth + n) * 4 ≤ b.length) :
    ∃ es q, uint32.times n (b.drop (1 + p.depth * 4)) = .ok (es, b.drop (1 + (p.depth + n) * 4)) ∧
      takeElements b p n = .ok q ∧ q.elements = p.elements ++ es := by
  induction n generalizing p with
  | zero => exact ⟨[], p, rfl, rfl, (List.append_nil _).symm⟩
  | succ n ih =>
    have hroom : 1 + p.depth * 4 + 4 ≤ b.length := by omega
    have hlt : p.elements.length < 10 := Nat.lt_of_lt_of_le (Nat.lt_add_of_pos_right n.succ_pos) hp
    let e := UInt32.ofNat (Bytes.toNatBE ((b.drop (1 + p.depth * 4)).take 4))
    let q : DerivationPath := ⟨p.elements ++ [e], by rw [List.length_append]; exact hlt⟩
    have hq : q.depth = p.depth + 1 := List.length_append
    obtain ⟨es, last, htimes, htake, hlast⟩ := ih q (by omega) (by omega)
    refine ⟨e :: es, last, ?_, ?_, ?_⟩
    · rw [Reader.times, bind_of_ok (uint32_drop hroom),
        show 1 + p.depth * 4 + 4 = 1 + q.depth * 4 by omega, bind_of_ok htimes,
        show q.depth + n = p.depth + (n + 1) by omega]
      rfl
    · rw [takeElements, onFrom_eq (by omega), Outcome.ok_bind,
        upTo_eq (by rw [List.length_drop]; omega), Outcome.ok_bind,
        word_eq (length_take_drop hroom), Outcome.ok_bind, push, dif_pos hlt]
      exact htake
    · rw [hlast, List.append_assoc]
      rfl

theorem parse_eq (b : Bytes) : (Codec.parse b : Outcome WireError (DerivationPath × Nat)) =
    .of (Record.decode b) := by
  cases b with
  | nil => rfl
  | cons d b =>
    refine Follows.eq_decode (r := read) ?_
    refine .read (byte_drop (b := d :: b) (Nat.succ_pos _)) ?_
    refine .guard fun hdepth => ?_
    have hlen : 1 ≤ (d :: b).length := Nat.succ_pos _
    refine .wants (fixed_uint32.times d.toNat).wants.bind rfl hlen fun h => ?_
    have hroot : root.depth = 0 := rfl
    obtain ⟨es, p, htimes, htake, hp⟩ := takeElements_eq (b := d :: b) d.toNat root (by omega)
      (by omega)
    obtain rfl : p.elements = es := hp
    rw [hroot, Nat.zero_mul, Nat.zero_add] at htimes
    refine .read htimes ?_
    rw [dif_pos p.depth_le]
    simp only [htake, Outcome.ok_bind]
    exact .pure h

theorem ranged : Ranged DerivationPath :=
  .of_writes (.of_layout (fun _ => rfl) fun _ => rfl)
    (fun p => congrArg Except.ok p.length_layout.symm) writes parse_eq

theorem advances : (Record.read : Reader DerivationPath).Advances :=
  exact_read.inverts.advances

end DerivationPath

namespace PublicKeyRequest

theorem parse_eq (b : Bytes) : (Codec.parse b : Outcome WireError (PublicKeyRequest × Nat)) =
    .of (Record.decode b) := by
  refine Follows.eq_decode (r := read) ?_
  refine .field DerivationPath.parse_eq DerivationPath.advances (Nat.zero_le _) fun path i hi => ?_
  exact .ending hi fun _ => .pure hi

theorem ranged : Ranged PublicKeyRequest :=
  .of_writes (.of_layout (fun _ => rfl) fun _ => rfl)
    (fun r => DerivationPath.ranged.size r.path) (fun r => DerivationPath.writes r.path) parse_eq

end PublicKeyRequest

namespace PublicKey

theorem length_layout (k : PublicKey) : k.layout.length = layoutLength := by
  simp [layout, Block.length_bytes, layoutLength]

theorem writes (k : PublicKey) : Writes (Codec.write k) (.ok k.layout) := by
  refine .of_room k.length_layout fun buff h => ?_
  have hroom : 99 ≤ buff.length := h
  have hkey := k.key.length_bytes
  have hcode := k.chainCode.length_bytes
  refine .congr (.bind (.put rfl (by omega)) <| .bind (.copy rfl hkey.symm (by omega)) <|
    .bind (.put (by simp [hkey]) (by omega)) <|
    .bind (.copy (by simp [hkey]) hcode.symm (by omega)) (.pure _)) ?_
  simp [layout]

theorem parse_eq (b : Bytes) : (Codec.parse b : Outcome WireError (PublicKey × Nat)) =
    .of (Record.decode b) := by
  have hread : read b =
      if b.length ≠ layoutLength then .error .invalidLength else read.readFields b := rfl
  change (consumed layoutLength b >>= _) = .of (read.decode b)
  rw [decode_eq_map, hread]
  by_cases h : layoutLength = b.length
  · have hlen : 99 = b.length := h
    rw [consumed, if_pos h, if_neg (not_not.2 h.symm)]
    change Follows b 0 _ read.readFields
    refine .read (byte_drop (by omega)) <| .read (block_drop (by omega)) <|
      .read (byte_drop (by omega)) <| .read (block_drop (by omega)) ?_
    have hformat : (((b.drop 1).take 65).head? != some uncompressed) = (b[1] != uncompressed) := by
      rw [List.drop_eq_getElem_cons (by omega)]
      rfl
    dsimp only
    rw [hformat]
    refine .get (by omega) <| .get (by omega) <| .get (by omega) <| .guard fun _ => ?_
    exact .block (by omega) <| .block (by omega) <| .pure hlen.le
  · rw [consumed, if_neg h, if_pos (Ne.symm h)]
    rfl

theorem ranged : Ranged PublicKey :=
  .of_writes (.of_layout (fun _ => rfl) fun _ => rfl)
    (fun k => congrArg Except.ok k.length_layout.symm) writes parse_eq

theorem advances : (Record.read : Reader PublicKey).Advances :=
  (Inverts.of_whole fun _ _ _ => read_eq_ok).advances

end PublicKey

/-! ### Messages -/

namespace MessageRequest

theorem parse_eq (b : Bytes) : (Codec.parse b : Outcome WireError (MessageRequest × Nat)) =
    .of (Record.decode b) := by
  have hwants : read.Wants (1 + (4 + (4 + 0))) :=
    fixed_byte.bind_wants fun _ => fixed_uint32.bind_wants fun _ => fixed_uint32.bind_wants fun _ =>
      wants_zero _
  refine (Follows.wants hwants rfl (Nat.zero_le _) fun h => ?_).eq_decode
  refine .read (byte_drop (b := b) (by omega)) <| .read (uint32_drop (by omega)) <|
    .read (uint32_drop (by omega)) ?_
  refine .field parsePrefixed_eq exact_lengthPrefixed.inverts.advances h fun message i hi => ?_
  exact .get (by omega) <| .word rfl (by omega) <| .word rfl (by omega) <| .pure hi

theorem length_layout (r : MessageRequest) : r.layout.length = 10 + r.message.length := by
  simp [layout]
  omega

theorem limited : Record.Limited layout message where
  encode_of_le _ := encode_eq
  encode_of_lt r h := by
    change r.encode = _
    rw [encode, Bytes.lengthPrefixed, if_neg (Nat.not_le.2 h)]
    rfl
  encodedLength_eq _ := rfl

theorem size_eq (r : MessageRequest) : r.size = Record.encodedLength r := by
  rw [limited.encodedLength_eq_ite, r.length_layout]
  rfl

theorem writes (r : MessageRequest) : Writes (Codec.write r) r.encode := by
  refine .of_size (size_eq r) (fun _ => limited.eq_invalidLength) fun d hd => ?_
  obtain ⟨hlen, rfl⟩ := limited.encode_eq_ok hd
  refine .of_room rfl fun buff h => ?_
  rw [r.length_layout] at h
  have hmessage := writes_prefixed_of_le hlen
  refine .congr (.bind (.put rfl (by omega)) <| .bind (.copy rfl (by simp) (by omega)) <|
    .bind (.copy (by simp) (by simp) (by omega)) <|
    .bind (.discard (hmessage.lays (by simp) ?_)) (.pure _)) ?_
  · rw [AppInfo.field, List.length_cons]
    omega
  · simp [layout, AppInfo.field]

theorem ranged : Ranged MessageRequest :=
  .of_writes limited.counted size_eq writes parse_eq

theorem advances : (Record.read : Reader MessageRequest).Advances :=
  exact_read.inverts.advances

end MessageRequest

namespace MessageSignature

theorem length_layout (s : MessageSignature) :
    s.layout.length = 1 + s.signature.length + 1 + 32 := by
  simp [layout, s.messageHash.length_bytes]
  omega

theorem writes (s : MessageSignature) : Writes (Codec.write s) (.ok s.layout) := by
  refine .of_room s.length_layout fun buff h => ?_
  have hle : s.signature.length ≤ 255 := Nat.le_trans s.length_signature (by decide)
  have hhash := s.messageHash.length_bytes
  have hlayout : s.layout = AppInfo.field s.signature ++ AppInfo.field s.messageHash.bytes := by
    simp [layout, AppInfo.field, hhash]
  rw [hlayout]
  refine WritesAt.lays (w := []) ?_ (hlayout ▸ s.length_layout) h
  refine (writes_prefixed_of_le hle).at_bind_ok rfl (Nat.zero_le _) fun hi => ?_
  exact (writes_prefixed_of_le (by omega)).at (by simp) hi

theorem parse_eq (b : Bytes) : (Codec.parse b : Outcome WireError (MessageSignature × Nat)) =
    .of (Record.decode b) := by
  have hfield := exact_lengthPrefixed.inverts.advances
  refine Follows.eq_decode (r := read) ?_
  refine .field parsePrefixed_eq hfield (Nat.zero_le _) fun d i hi => ?_
  dsimp only
  by_cases hd : d.length ≤ maxSignature
  · rw [dif_pos hd, if_neg (Nat.not_lt.2 hd)]
    refine .field parsePrefixed_eq hfield hi fun hash i hi => ?_
    dsimp only
    by_cases hhash : hash.length = 32
    · rw [if_neg (not_not.2 hhash), Block.ofBytes?_eq_some (d := ⟨hash, hhash⟩) |>.2 rfl]
      refine .ending hi fun _ => ?_
      rw [boundedSignature, dif_pos hd, Outcome.ok_bind, block_eq hhash]
      exact .pure hi
    · rw [if_pos hhash, Block.ofBytes?, dif_neg hhash]
      rfl
  · rw [dif_neg hd, if_pos (Nat.lt_of_not_le hd)]
    rfl

theorem ranged : Ranged MessageSignature :=
  .of_writes (.of_layout (fun _ => rfl) fun _ => rfl)
    (fun s => congrArg Except.ok s.length_layout.symm) writes parse_eq

theorem advances : (Record.read : Reader MessageSignature).Advances :=
  (Inverts.of_whole_total fun _ _ _ => read_eq_ok).advances

end MessageSignature

/-! ### Transactions -/

namespace TxHeader

theorem byteCount_eq (h : TxHeader) : h.layout.length = h.byteCount := h.length_layout

theorem writes (h : TxHeader) : Writes (Codec.write h) (.ok h.layout) := by
  refine .of_room h.byteCount_eq fun buff hroom => ?_
  obtain ⟨version, outs, ins, change⟩ := h
  cases change with
  | none =>
    have hlen : 4 ≤ buff.length := hroom
    exact .bind (.copy rfl (by simp) (by omega)) <| .bind (.put (by simp) (by omega)) <|
      .bind (.put (by simp) (by omega)) (.pure _)
  | some c =>
    have hlen : 9 ≤ buff.length := hroom
    refine .congr (.bind (.copy rfl (by simp) (by omega)) <| .bind (.put (by simp) (by omega)) <|
      .bind (.put (by simp) (by omega)) <| .bind (.put (by simp) (by omega)) <|
      .bind (.copy (by simp) (by simp) (by omega)) (.pure _)) ?_
    simp [layout]

/-- A reader is at the change address once it has the counts. -/
theorem follows_counts {b : Bytes} {x : Outcome WireError (TxHeader × Nat)} (h : 4 ≤ b.length)
    (hx : ∀ version outs ins,
      version = UInt16.ofNat (Bytes.toNatBE ((b.drop 0).take 2)) → outs = b[2] → ins = b[3] →
      Follows b 4 x (if (b.drop 4).isEmpty then pure ⟨version, outs, ins, none⟩
        else do
          let addressType ← byte
          let addressIndex ← uint32
          ending
          pure ⟨version, outs, ins, some ⟨addressType, addressIndex⟩⟩)) :
    Follows b 0 x read :=
  .read (uint16_drop (by omega)) <| .read (byte_drop (by omega)) <| .read (byte_drop (by omega)) <|
    .read (r := get) (a := b.drop 4) (j := 4) rfl <| hx _ _ _ rfl rfl rfl

theorem parseChange_of_short {b : Bytes} (h : b.length = 4) : parseChange b = .ok none := if_pos h

theorem parseChange_of_ne {b : Bytes} (h4 : b.length ≠ 4) (h9 : b.length ≠ 9) :
    parseChange b = .error .invalidLength := (if_neg h4).trans (if_neg h9)

theorem parseChange_of_long {b : Bytes} (h : b.length = 9) :
    parseChange b = .ok (some ⟨b[4], UInt32.ofNat (Bytes.toNatBE ((b.drop 5).take 4))⟩) := by
  rw [parseChange, if_neg (by rw [h]; decide), if_pos (by rw [h]; rfl), get_eq (by omega),
    Outcome.ok_bind, between_eq (n := 4) rfl h.ge, Outcome.ok_bind,
    word_eq (length_take_drop h.ge)]
  rfl

theorem parse_eq (b : Bytes) : (Codec.parse b : Outcome WireError (TxHeader × Nat)) =
    .of (Record.decode b) := by
  have hwants : read.Wants (2 + (1 + (1 + 0))) :=
    fixed_uint16.bind_wants fun _ => fixed_byte.bind_wants fun _ => fixed_byte.bind_wants fun _ =>
      wants_zero _
  refine Follows.eq_decode (r := read) ?_
  change Follows b 0 (parseChange b >>= _) read
  by_cases hshort : b.length = 4
  · rw [parseChange_of_short hshort]
    refine follows_counts hshort.ge fun version outs ins hversion houts hins => ?_
    rw [List.drop_eq_nil_of_le hshort.le, hversion, houts, hins]
    exact .word rfl (by omega) <| .get (by omega) <| .get (by omega) <|
      .pure_of_eq hshort.symm hshort.ge
  have hrest : 4 ≤ b.length → ¬(b.drop 4).isEmpty = true := by
    rw [List.isEmpty_iff, List.drop_eq_nil_iff]
    omega
  by_cases hlong : b.length = 9
  · rw [parseChange_of_long hlong]
    refine follows_counts (by omega) fun version outs ins hversion houts hins => ?_
    rw [if_neg (hrest (by omega)), hversion, houts, hins]
    refine .read (byte_drop (by omega)) <| .read (uint32_drop (by omega)) <| .ended hlong.symm ?_
    exact .word rfl (by omega) <| .get (by omega) <| .get (by omega) <|
      .pure_of_eq hlong.symm hlong.ge
  rw [parseChange_of_ne hshort hlong]
  by_cases hcounts : b.length < 4
  · rw [Follows, List.drop_zero, hwants b hcounts]
    rfl
  · have hle := Nat.le_of_not_lt hcounts
    refine follows_counts hle fun version outs ins _ _ _ => ?_
    rw [if_neg (hrest hle)]
    exact .fills (fixed_byte.bind_fills fun _ => fixed_uint32.bind_fills fun _ => fills_ending _)
      hlong hle

theorem ranged : Ranged TxHeader :=
  .of_writes (.of_layout (fun _ => rfl) fun _ => rfl)
    (fun h => congrArg Except.ok h.byteCount_eq.symm) writes parse_eq

theorem advances : (Record.read : Reader TxHeader).Advances :=
  (Inverts.of_whole_total fun _ _ _ => read_eq_ok).advances

end TxHeader

namespace TxOutput

theorem length_layout (o : TxOutput) : o.layout.length = 8 + 1 + o.script.length := by
  simp [layout]
  omega

theorem limited : Record.Limited layout script where
  encode_of_le _ := encode_eq
  encode_of_lt o h := by
    change o.encode = _
    rw [encode, Bytes.lengthPrefixed, if_neg (Nat.not_le.2 h)]
    rfl
  encodedLength_eq _ := rfl

theorem size_eq (o : TxOutput) : o.size = Record.encodedLength o := by
  rw [limited.encodedLength_eq_ite, o.length_layout]
  rfl

theorem writes (o : TxOutput) : Writes (Codec.write o) o.encode := by
  refine .of_size (size_eq o) (fun _ => limited.eq_invalidLength) fun d hd => ?_
  obtain ⟨hlen, rfl⟩ := limited.encode_eq_ok hd
  refine .of_room rfl fun buff h => ?_
  rw [o.length_layout] at h
  have hscript := writes_prefixed_of_le hlen
  refine .congr (.bind (.copy rfl (by simp) (by omega)) <|
    .bind (.discard (hscript.lays (by simp) ?_)) (.pure _)) ?_
  · rw [AppInfo.field, List.length_cons]
    omega
  · simp [layout, AppInfo.field]

theorem parse_eq (b : Bytes) : (Codec.parse b : Outcome WireError (TxOutput × Nat)) =
    .of (Record.decode b) := by
  have hwants : read.Wants 8 := fixed_uint64.wants.bind
  refine (Follows.wants hwants (Nat.zero_add 8).symm (Nat.zero_le _) fun h => ?_).eq_decode
  refine .read (uint64_drop (b := b) (by omega)) ?_
  rw [upTo_eq h, Outcome.ok_bind, word_eq (List.length_take_of_le h)]
  exact .field parsePrefixed_eq exact_lengthPrefixed.inverts.advances h fun script i hi => .pure hi

theorem ranged : Ranged TxOutput :=
  .of_writes limited.counted size_eq writes parse_eq

theorem advances : (Record.read : Reader TxOutput).Advances :=
  exact_read.inverts.advances

end TxOutput

namespace TxInput

theorem length_layout (i : TxInput) : i.layout.length = 49 := by
  simp [layout, i.previousTxId.length_bytes]

theorem writes (r : TxInput) : Writes (Codec.write r) (.ok r.layout) := by
  have hlayout : r.layout = Bytes.ofUInt64BE r.value ++ (r.previousTxId.bytes ++
      ([r.addressType] ++ (Bytes.ofUInt32BE r.addressIndex ++ Bytes.ofUInt32BE r.inputIndex))) := by
    simp [layout]
  rw [hlayout]
  refine .of_at fun buff => ?_
  refine (writes_fixed (by simp)).at_bind_ok rfl (Nat.zero_le _) fun hvalue => ?_
  refine (writes_fixed r.previousTxId.length_bytes).at_bind_ok (by simp) hvalue fun htxId => ?_
  refine (writes_byte r.addressType).at_bind_ok (by simp) htxId fun htype => ?_
  refine (writes_fixed (by simp)).at_bind_ok (by simp; omega) htype fun hindex => ?_
  exact (writes_fixed (by simp)).at (by simp; omega) hindex

theorem parse_eq (b : Bytes) : (Codec.parse b : Outcome WireError (TxInput × Nat)) =
    .of (Record.decode b) := by
  refine Follows.eq_decode (r := read) ?_
  rw [read]
  simp only [uint64, uint32, bind_map_left]
  refine .field (parseWord_eq 8) (advances_nat 8) (Nat.zero_le _) fun value i hi => ?_
  refine .field (parseBlock_eq 32) (exact_block 32).inverts.advances hi fun txId i hi => ?_
  refine .field parseByte_eq exact_byte.inverts.advances hi fun addressType i hi => ?_
  refine .field (parseWord_eq 4) (advances_nat 4) hi fun addressIndex i hi => ?_
  refine .field (parseWord_eq 4) (advances_nat 4) hi fun inputIndex i hi => ?_
  exact .pure hi

theorem ranged : Ranged TxInput :=
  .of_writes (.of_layout (fun _ => rfl) fun _ => rfl)
    (fun i => congrArg Except.ok i.length_layout.symm) writes parse_eq

theorem advances : (Record.read : Reader TxInput).Advances :=
  exact_read.inverts.advances

end TxInput

namespace TxSignature

theorem length_layout (s : TxSignature) : s.layout.length = byteCount s.signature.length := by
  simp [layout, s.sighash.length_bytes, byteCount]
  omega

theorem writes (s : TxSignature) : Writes (Codec.write s) (.ok s.layout) := by
  refine .of_room s.length_layout fun buff h => ?_
  have hroom : 4 + s.signature.length + 1 + 32 ≤ buff.length := h
  have hhash := s.sighash.length_bytes
  refine .congr (.bind (.put rfl (by omega)) <| .bind (.put (by simp) (by omega)) <|
    .bind (.put (by simp) (by omega)) <| .bind (.put (by simp) (by omega)) <|
    .bind (.copy (by simp) rfl (by omega)) <| .bind (.put (by simp; omega) (by omega)) <|
    .bind (.copy (by simp; omega) hhash.symm (by omega)) (.pure _)) ?_
  simp [layout]

theorem parse_eq (b : Bytes) : (Codec.parse b : Outcome WireError (TxSignature × Nat)) =
    .of (Record.decode b) := by
  have hwants : read.Wants (1 + (1 + (1 + (1 + 0)))) :=
    fixed_byte.bind_wants fun _ => fixed_byte.bind_wants fun _ => fixed_byte.bind_wants fun _ =>
      fixed_byte.bind_wants fun _ => wants_zero _
  refine (Follows.wants hwants rfl (Nat.zero_le _) fun h => ?_).eq_decode
  refine .read (byte_drop (b := b) (by omega)) <| .read (byte_drop (by omega)) <|
    .read (byte_drop (by omega)) <| .read (byte_drop (by omega)) ?_
  simp only [Nat.reduceAdd]
  refine .get (by omega) ?_
  cases readFlag b[0] with
  | none => exact .refuse _
  | some more =>
  refine .get (by omega) ?_
  cases SignatureScheme.ofCode? b[2] with
  | none => exact .refuse _
  | some scheme =>
  refine .get (by omega) <| .guard fun hn => ?_
  generalize hlength : b[3].toNat = n at hn
  have hbytes : byteCount n = 4 + n + 1 + 32 := rfl
  by_cases hwhole : byteCount n = b.length
  · have hmax : ((b.drop 4).take n).length ≤ maxSignature := by
      rw [length_take_drop (by omega)]
      exact Nat.le_of_not_lt hn
    rw [consumed, if_pos hwhole]
    refine .read (take_drop (by omega)) <| .read (byte_drop (by omega)) <|
      .read (block_drop (by omega)) <| .ended (by omega) ?_
    rw [dif_pos hmax, Outcome.ok_bind, onFrom_eq (by omega), Outcome.ok_bind,
      upTo_eq (by rw [List.length_drop]; omega), Outcome.ok_bind, boundedSignature, dif_pos hmax,
      Outcome.ok_bind, show 5 + n = 4 + n + 1 by omega]
    exact .block (by omega) <| .get (by omega) <| .get (by omega) <| .pure (by omega)
  · rw [consumed, if_neg hwhole]
    refine .fills ((fixed_take n).bind_fills fun _ => fixed_byte.bind_fills fun _ =>
      (fixed_block 32).bind_fills fun _ => fills_ending _) ?_ (by omega)
    omega

theorem ranged : Ranged TxSignature :=
  .of_writes (.of_layout (fun _ => rfl) fun _ => rfl)
    (fun s => congrArg Except.ok s.length_layout.symm) writes parse_eq

theorem advances : (Record.read : Reader TxSignature).Advances :=
  (Inverts.of_whole_total fun _ _ _ => read_eq_ok).advances

end TxSignature

/-! ### Frames and answers -/

namespace Frame

theorem length_layout (f : Frame) : f.layout.length = headerLength + f.data.length := by
  simp [layout, headerLength]
  omega

theorem writes (f : Frame) : Writes (Codec.write f) (.ok f.layout) := by
  refine .of_room f.length_layout fun buff h => ?_
  have hroom : 5 + f.data.length ≤ buff.length := h
  have hdata : headerLength + f.data.length - headerLength = f.data.length :=
    Nat.add_sub_cancel_left ..
  have hheader : headerLength = 5 := rfl
  refine .congr (.bind (.put rfl (by omega)) <| .bind (.put (by simp) (by omega)) <|
    .bind (.put (by simp) (by omega)) <| .bind (.put (by simp) (by omega)) <|
    .bind (.put (by simp) (by omega)) <| .bind (.copy rfl hdata (by omega)) (.pure _)) ?_
  simp [layout]

theorem parse_eq (b : Bytes) : (Codec.parse b : Outcome WireError (Frame × Nat)) =
    .of (Record.decode b) := by
  have hwants : read.Wants (1 + (1 + (1 + (1 + 1)))) :=
    fixed_byte.bind_wants fun _ => fixed_byte.bind_wants fun _ => fixed_byte.bind_wants fun _ =>
      fixed_byte.bind_wants fun _ => fixed_byte.wants.bind.bind
  refine (Follows.wants hwants rfl (Nat.zero_le _) fun h => ?_).eq_decode
  have hlen : 5 ≤ b.length := h
  refine .read (byte_drop (b := b) (by omega)) <| .read (byte_drop (by omega)) <|
    .read (byte_drop (by omega)) <| .read (byte_drop (by omega)) <| .prefixed (by omega) ?_
  simp only [Nat.reduceAdd]
  refine .get (by omega) ?_
  have hheader : headerLength = 5 := rfl
  by_cases hwhole : b.length = headerLength + b[4].toNat
  · have hmax : b[4].toNat < 256 := b[4].toNat_lt
    have hdata : (b.drop 5).length = b[4].toNat := by
      rw [List.length_drop]
      omega
    rw [if_neg (not_not.2 hwhole)]
    refine .read (take_drop (by omega)) <| .ended (by omega) ?_
    rw [List.take_of_length_le hdata.le]
    have hok : ofParts b[0] b[1] b[2] b[3] (b.drop 5) = .ok ⟨b[0], b[1], b[2], b[3], b.drop 5,
        Nat.le_of_lt_succ (hdata ▸ hmax)⟩ := dif_pos _
    refine .get (by omega) <| .get (by omega) <| .get (by omega) <| .get (by omega) ?_
    rw [hheader, onFrom_eq hlen, Outcome.ok_bind, fill, hok]
    exact .pure (by omega)
  · rw [if_pos hwhole]
    exact .fills ((fixed_take _).bind_fills fun _ => fills_ending _) (by omega) hlen

theorem ranged : Ranged Frame :=
  .of_writes (.of_layout (fun _ => rfl) fun _ => rfl)
    (fun f => congrArg Except.ok f.length_layout.symm) writes parse_eq

end Frame

namespace Answer

theorem length_layout (a : Answer) : a.layout.length = a.data.length + 2 := by
  simp [layout]

theorem writes (a : Answer) : Writes (Codec.write a) (.ok a.layout) :=
  .of_room a.length_layout fun _ h =>
    .bind (.copy rfl rfl (by omega)) <| .bind (.copy rfl (by simp) (by omega)) (.pure _)

theorem parse_eq (b : Bytes) : (Codec.parse b : Outcome WireError (Answer × Nat)) =
    .of (Record.decode b) := by
  have hwants : read.Wants 2 := fun _ h => if_pos h
  refine (Follows.wants hwants (Nat.zero_add 2).symm (Nat.zero_le _) fun h => ?_).eq_decode
  have hstatus : b.drop (b.length - 2) = [b[b.length - 2], b[b.length - 2 + 1]] := by
    rw [List.drop_eq_getElem_cons (by omega), List.drop_eq_getElem_cons (by omega),
      List.drop_eq_nil_of_le (by omega)]
  have hread : read b = .ok (⟨b.take (b.length - 2), UInt16.ofNat
      (Bytes.toNatBE (b.drop (b.length - 2)))⟩, []) := if_neg (Nat.not_lt.2 h)
  dsimp only
  rw [minus_eq h, Outcome.ok_bind]
  refine .get (by omega) <| .get (by omega) ?_
  rw [upTo_eq (by omega), ← hstatus, Follows, List.drop_zero, hread]
  rfl

theorem ranged : Ranged Answer :=
  .of_writes (.of_layout (fun _ => rfl) fun _ => rfl)
    (fun a => congrArg Except.ok a.length_layout.symm) writes parse_eq

end Answer

/-! ### Responses -/

/-- The answer of a layout, the record of which takes all of the data. -/
theorem Response.parse_eq (k : ResponseKind) (b : Bytes) :
    Response.parse k b = .of (Response.decode k b) := by
  cases k with
  | version => exact AppVersion.ranged.map_whole AppVersion.advances version b
  | appName => exact AppName.ranged.map_whole AppName.advances appName b
  | appAndVersion => exact AppInfo.ranged.map_whole AppInfo.advances appAndVersion b
  | publicKey => exact PublicKey.ranged.map_whole PublicKey.advances publicKey b
  | txSignature => exact TxSignature.ranged.map_whole TxSignature.advances txSignature b
  | messageSignature =>
    exact MessageSignature.ranged.map_whole MessageSignature.advances messageSignature b

end HardwareSigner
