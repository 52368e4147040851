import HardwareSigner.Frame
import HardwareSigner.Record.Message
import HardwareSigner.Record.PublicKey
import HardwareSigner.Record.Transaction
import HardwareSigner.Proofs.Wire.Exact

/-! Records of the commands and of signing are read back from the bytes that they are written as,
and from no others. Most are told by their first bytes alone; the others take all the bytes there
are. -/

namespace HardwareSigner

/-- A field has a length of one byte or no wire form. -/
theorem Bytes.lengthPrefixed_eq_ok {d b : Bytes} :
    Bytes.lengthPrefixed d = .ok b ↔ d.length ≤ 255 ∧ b = UInt8.ofNat d.length :: d := by
  unfold Bytes.lengthPrefixed
  split
  · rename_i hlen
    constructor
    · rintro ⟨⟩
      exact ⟨hlen, rfl⟩
    · rintro ⟨-, rfl⟩
      rfl
  · rename_i hlen
    exact ⟨nofun, fun h => absurd h.1 hlen⟩

namespace Instruction

@[simp] theorem ofCode?_code (i : Instruction) : ofCode? i.code = some i := by
  cases i <;> rfl

theorem ofCode?_eq_some {c : UInt8} {i : Instruction} : ofCode? c = some i ↔ c = i.code := by
  constructor
  · intro h
    have hcode := List.find?_some h
    exact (eq_of_beq hcode).symm
  · rintro rfl
    exact ofCode?_code i

end Instruction

namespace Phase

@[simp] theorem ofCode?_code (p : Phase) : ofCode? p.code = some p := by
  cases p <;> rfl

end Phase

namespace Continuation

@[simp] theorem ofCode?_code (c : Continuation) : ofCode? c.code = some c := by
  cases c <;> rfl

end Continuation

namespace SignatureScheme

@[simp] theorem ofCode?_code (s : SignatureScheme) : ofCode? s.code = some s := by
  cases s <;> rfl

theorem ofCode?_eq_some {c : UInt8} {s : SignatureScheme} : ofCode? c = some s ↔ c = s.code := by
  constructor
  · intro h
    have hcode := List.find?_some h
    exact (eq_of_beq hcode).symm
  · rintro rfl
    exact ofCode?_code s

end SignatureScheme

namespace TxHeader

/-- Nothing follows a header in its frame, which is how its two forms are told apart. -/
theorem read_eq_ok {b rest : Bytes} {h : TxHeader} :
    read b = .ok (h, rest) ↔ b = h.layout ∧ rest = [] := by
  simp only [read, Reader.bind_ok, Reader.uint16_eq_ok, Reader.byte_eq_ok]
  constructor
  · rintro ⟨version, _, rfl, outs, _, rfl, ins, tail, rfl, _, mid, hget, h⟩
    cases hget
    split at h
    · rename_i hempty
      obtain ⟨rfl, rfl⟩ := Reader.pure_eq_ok.1 h
      obtain rfl := List.isEmpty_iff.1 hempty
      exact ⟨rfl, rfl⟩
    · simp only [Reader.bind_ok, Reader.byte_eq_ok, Reader.uint32_eq_ok, Reader.ending_eq_ok,
        Reader.pure_eq_ok] at h
      obtain ⟨t, _, rfl, index, _, rfl, _, _, ⟨rfl, rfl⟩, rfl, rfl⟩ := h
      exact ⟨by simp [layout], rfl⟩
  · rintro ⟨rfl, rfl⟩
    obtain ⟨version, outs, ins, change⟩ := h
    refine ⟨version, _, rfl, outs, _, rfl, ins, _, rfl, _, _, rfl, ?_⟩
    cases change with
    | none => rfl
    | some c =>
      simp only [List.isEmpty_cons, Bool.false_eq_true, if_false, Reader.bind_ok,
        Reader.byte_eq_ok, Reader.uint32_eq_ok, Reader.ending_eq_ok, Reader.pure_eq_ok]
      exact ⟨_, _, rfl, _, [], by simp, (), [], ⟨rfl, rfl⟩, rfl, rfl⟩

theorem decodeAll_eq_ok {b : Bytes} {h : TxHeader} :
    read.decodeAll b = .ok h ↔ b = h.layout := by
  simp [Reader.decodeAll_eq_ok, read_eq_ok]

/-- The two forms of a header differ in length. -/
theorem length_layout (h : TxHeader) :
    h.layout.length = if h.change.isSome then longLength else shortLength := by
  unfold layout
  cases h.change <;> simp [longLength, shortLength]

end TxHeader

namespace TxOutput

def layout (o : TxOutput) : Bytes :=
  Bytes.ofUInt64BE o.value ++ UInt8.ofNat o.script.length :: o.script

theorem exact_read : Reader.Exact read layout fun o => o.script.length ≤ 255 := by
  intro b o rest
  simp only [read, layout, Reader.bind_ok, Reader.uint64_eq_ok, Reader.lengthPrefixed_eq_ok,
    Reader.pure_eq_ok]
  constructor
  · rintro ⟨value, _, rfl, script, _, ⟨hlen, rfl⟩, rfl, rfl⟩
    exact ⟨hlen, by simp⟩
  · rintro ⟨hlen, rfl⟩
    exact ⟨o.value, _, List.append_assoc .., o.script, rest, ⟨hlen, rfl⟩, rfl, rfl⟩

theorem encode_eq {o : TxOutput} (h : o.script.length ≤ 255) : o.encode = .ok o.layout :=
  bind_eq_ok.2 ⟨_, Bytes.lengthPrefixed_eq_ok.2 ⟨h, rfl⟩, rfl⟩

end TxOutput

namespace TxInput

theorem exact_read : Reader.Exact read layout fun _ => True := by
  intro b i rest
  simp only [read, layout, Reader.bind_ok, Reader.uint64_eq_ok, Reader.block_eq_ok,
    Reader.byte_eq_ok, Reader.uint32_eq_ok, Reader.pure_eq_ok, true_and]
  constructor
  · rintro ⟨value, _, rfl, txId, _, rfl, t, _, rfl, index, _, rfl, place, _, rfl, rfl, rfl⟩
    simp
  · rintro rfl
    simp only [List.append_assoc, List.cons_append]
    exact ⟨i.value, _, rfl, i.previousTxId, _, rfl, i.addressType, _, rfl, i.addressIndex, _, rfl,
      i.inputIndex, rest, rfl, rfl, rfl⟩

end TxInput

namespace DerivationPath

theorem exact_read : Reader.Exact read layout fun _ => True := by
  have helement : Reader.Exact Reader.uint32 Bytes.ofUInt32BE fun _ => True := by
    intro b v rest
    rw [Reader.uint32_eq_ok, true_and]
  have helements := helement.times
  intro b p rest
  simp only [read, layout, Reader.bind_ok, Reader.byte_eq_ok, Reader.guard_eq_ok]
  constructor
  · rintro ⟨depth, _, rfl, -, es, mid, hes, h⟩
    obtain ⟨⟨hlen, -⟩, rfl⟩ := (helements _ _ _ _).1 hes
    split at h
    · obtain ⟨rfl, rfl⟩ := Reader.pure_eq_ok.1 h
      exact ⟨trivial, by simp [DerivationPath.depth, hlen]⟩
    · cases h
  · rintro ⟨-, rfl⟩
    have hdepth : (UInt8.ofNat p.depth).toNat = p.elements.length :=
      UInt8.toNat_ofNat_of_lt' (Nat.lt_of_le_of_lt p.depth_le (by decide))
    have hes := (helements _ _ _ rest).2 ⟨⟨hdepth.symm, fun _ _ => trivial⟩, rfl⟩
    refine ⟨_, _, rfl, ?_, p.elements, rest, hes, ?_⟩
    · rw [hdepth]
      exact Nat.not_lt.2 p.depth_le
    · rw [dif_pos p.depth_le]
      rfl

theorem length_layout (p : DerivationPath) : p.layout.length = 1 + p.depth * 4 := by
  have helements : ∀ es : List UInt32, (es.flatMap Bytes.ofUInt32BE).length = es.length * 4 := by
    intro es
    induction es with
    | nil => rfl
    | cons e es ih =>
      rw [List.flatMap_cons, List.length_append, ih, Bytes.length_ofUInt32BE, List.length_cons]
      omega
  rw [layout, List.length_cons, helements, Nat.add_comm]
  rfl

end DerivationPath

namespace PublicKeyRequest

/-- The payload is a path to its end; how the key is to be shown is no part of it. -/
theorem read_eq_ok {b rest : Bytes} {r : PublicKeyRequest} :
    read b = .ok (r, rest) ↔ r.display = false ∧ b = r.path.layout ∧ rest = [] := by
  simp only [read, Reader.bind_ok, DerivationPath.exact_read _ _ _, Reader.ending_eq_ok,
    Reader.pure_eq_ok, true_and]
  constructor
  · rintro ⟨path, _, rfl, _, _, ⟨rfl, rfl⟩, rfl, rfl⟩
    exact ⟨rfl, List.append_nil _, rfl⟩
  · rintro ⟨hdisplay, rfl, rfl⟩
    obtain ⟨path, display⟩ := r
    obtain rfl : display = false := hdisplay
    exact ⟨path, [], (List.append_nil _).symm, (), [], ⟨rfl, rfl⟩, rfl, rfl⟩

end PublicKeyRequest

namespace PublicKey

theorem exact_readFields : Reader.Exact read.readFields layout fun k =>
    k.key.bytes.head? = some uncompressed := by
  intro b k rest
  simp only [read.readFields, layout, Reader.bind_ok, Reader.byte_eq_ok, Reader.block_eq_ok,
    Reader.guard_eq_ok, Reader.pure_eq_ok]
  constructor
  · rintro ⟨n, _, rfl, key, _, rfl, m, _, rfl, chainCode, _, rfl, hchecks, rfl, rfl⟩
    simp only [Bool.or_eq_true, bne_iff_ne, not_or, not_not] at hchecks
    obtain ⟨⟨rfl, hhead⟩, rfl⟩ := hchecks
    exact ⟨hhead, by simp⟩
  · rintro ⟨hhead, rfl⟩
    refine ⟨65, _, rfl, k.key, _, List.append_assoc .., 32, _, rfl, k.chainCode, rest, rfl, ?_, rfl,
      rfl⟩
    simp [hhead]

/-- A key is read from all of its bytes, the first of which tells the format. -/
theorem read_eq_ok {b rest : Bytes} {k : PublicKey} :
    read b = .ok (k, rest) ↔
      k.key.bytes.head? = some uncompressed ∧ b = k.layout ∧ rest = [] := by
  have hlen : k.layout.length = layoutLength := by
    simp [layout, Block.length_bytes, layoutLength]
  unfold read
  split
  · rename_i hne
    refine ⟨nofun, ?_⟩
    rintro ⟨-, rfl, -⟩
    exact absurd hlen hne
  · rename_i heq
    rw [exact_readFields]
    constructor
    · rintro ⟨hhead, rfl⟩
      rw [not_not, List.length_append, hlen] at heq
      obtain rfl := List.length_eq_zero_iff.1 (show rest.length = 0 by omega)
      exact ⟨hhead, List.append_nil _, rfl⟩
    · rintro ⟨hhead, rfl, rfl⟩
      exact ⟨hhead, (List.append_nil _).symm⟩

end PublicKey

namespace MessageRequest

def layout (r : MessageRequest) : Bytes :=
  r.addressType :: (Bytes.ofUInt32BE r.addressIndex ++ Bytes.ofUInt32BE r.account ++
    UInt8.ofNat r.message.length :: r.message)

theorem exact_read : Reader.Exact read layout fun r => r.message.length ≤ 255 := by
  intro b r rest
  simp only [read, layout, Reader.bind_ok, Reader.byte_eq_ok, Reader.uint32_eq_ok,
    Reader.lengthPrefixed_eq_ok, Reader.pure_eq_ok]
  constructor
  · rintro ⟨t, _, rfl, index, _, rfl, account, _, rfl, message, _, ⟨hlen, rfl⟩, rfl, rfl⟩
    exact ⟨hlen, by simp⟩
  · rintro ⟨hlen, rfl⟩
    refine ⟨r.addressType, _, rfl, r.addressIndex, _, ?_, r.account, _, rfl, r.message, rest,
      ⟨hlen, rfl⟩, rfl, rfl⟩
    simp

theorem encode_eq {r : MessageRequest} (h : r.message.length ≤ 255) : r.encode = .ok r.layout :=
  bind_eq_ok.2 ⟨_, Bytes.lengthPrefixed_eq_ok.2 ⟨h, rfl⟩, rfl⟩

end MessageRequest

namespace TxSignature

@[simp] theorem readFlag_flag (more : Bool) : readFlag (if more then 1 else 0) = some more := by
  cases more <;> rfl

theorem readFlag_eq_some {x : UInt8} {more : Bool} :
    readFlag x = some more ↔ x = if more then 1 else 0 := by
  unfold readFlag
  cases more <;> grind

theorem read_layout (r : TxSignature) : read r.layout = .ok (r, []) := by
  have hlen : (UInt8.ofNat r.signature.length).toNat = r.signature.length :=
    UInt8.toNat_ofNat_of_lt' (Nat.lt_of_le_of_lt r.length_signature (by decide))
  simp only [read, layout, Reader.bind_ok, Reader.byte_eq_ok]
  refine ⟨_, _, rfl, _, _, rfl, _, _, rfl, _, _, rfl, ?_⟩
  simp only [readFlag_flag, SignatureScheme.ofCode?_code, hlen, Reader.guard_eq_ok,
    Reader.bind_ok, Reader.take_eq_ok, Reader.byte_eq_ok, Reader.block_eq_ok, Reader.ending_eq_ok]
  refine ⟨Nat.not_lt.2 r.length_signature, _, _, ⟨rfl, rfl⟩, _, _, rfl, r.sighash, [], by simp, (),
    [], ⟨rfl, rfl⟩, ?_⟩
  rw [dif_pos r.length_signature]
  rfl

theorem read_eq_ok {b rest : Bytes} {s : TxSignature} :
    read b = .ok (s, rest) ↔ b = s.layout ∧ rest = [] := by
  constructor
  · intro h
    simp only [read, Reader.bind_ok, Reader.byte_eq_ok] at h
    obtain ⟨flag, _, rfl, index, _, rfl, code, _, rfl, n, _, rfl, h⟩ := h
    cases hflag : readFlag flag with
    | none =>
      rw [hflag] at h
      cases h
    | some more =>
    cases hscheme : SignatureScheme.ofCode? code with
    | none =>
      rw [hflag, hscheme] at h
      cases h
    | some scheme =>
      rw [hflag, hscheme] at h
      simp only [Reader.guard_eq_ok, Reader.bind_ok, Reader.take_eq_ok, Reader.byte_eq_ok,
        Reader.block_eq_ok, Reader.ending_eq_ok] at h
      obtain ⟨-, signature, _, ⟨hn, rfl⟩, recovery, _, rfl, hash, _, rfl, _, _, ⟨rfl, rfl⟩, h⟩ := h
      split at h
      · obtain ⟨rfl, rfl⟩ := Reader.pure_eq_ok.1 h
        obtain rfl := readFlag_eq_some.1 hflag
        obtain rfl := SignatureScheme.ofCode?_eq_some.1 hscheme
        exact ⟨by simp [layout, hn], rfl⟩
      · cases h
  · rintro ⟨rfl, rfl⟩
    exact read_layout s

@[simp] theorem decode_layout (r : TxSignature) :
    read.decode r.layout = .ok (r, r.layout.length) := by
  simp [Reader.decode, read_layout]

end TxSignature

namespace Answer

@[simp] theorem read_layout (a : Answer) : read a.layout = .ok (a, []) := by
  simp [read, layout]

theorem read_eq_ok {b rest : Bytes} {a : Answer} :
    read b = .ok (a, rest) ↔ b = a.layout ∧ rest = [] := by
  constructor
  · unfold read
    split
    · exact nofun
    · rename_i hlen
      rintro ⟨⟩
      have htail : (b.drop (b.length - 2)).length = 2 := by simp; omega
      refine ⟨?_, rfl⟩
      rw [layout, Bytes.ofUInt16BE_ofNat htail, List.take_append_drop]
  · rintro ⟨rfl, rfl⟩
    exact read_layout a

end Answer

namespace Frame

/-- A frame is read back from the bytes that it is written as. -/
theorem decodeAll_layout (f : Frame) : read.decodeAll f.layout = .ok f := by
  obtain ⟨cla, ins, p1, p2, data, hlen⟩ := f
  have hle : data.length ≤ 255 := hlen
  have hdata : Reader.lengthPrefixed (UInt8.ofNat data.length :: data) = .ok (data, []) :=
    Reader.lengthPrefixed_eq_ok.2 ⟨hle, by simp⟩
  refine Reader.decodeAll_eq_ok.2 ?_
  simp only [read, layout, Reader.bind_ok, Reader.byte_eq_ok]
  refine ⟨cla, _, rfl, ins, _, rfl, p1, _, rfl, p2, _, rfl, data, [], hdata, (), [],
    Reader.ending_eq_ok.2 ⟨rfl, rfl⟩, ?_⟩
  simp only [ofParts, dif_pos hlen]
  rfl

theorem layout_injective : Function.Injective layout := by
  intro f g h
  exact Except.ok.inj (f.decodeAll_layout.symm.trans (h ▸ g.decodeAll_layout))

theorem read_eq_ok {b rest : Bytes} {f : Frame} :
    read b = .ok (f, rest) ↔ b = f.layout ∧ rest = [] := by
  constructor
  · intro h
    simp only [read, Reader.bind_ok, Reader.byte_eq_ok, Reader.lengthPrefixed_eq_ok,
      Reader.ending_eq_ok] at h
    obtain ⟨cla, _, rfl, ins, _, rfl, p1, _, rfl, p2, _, rfl, data, _, ⟨hlen, rfl⟩, _, _,
      ⟨rfl, rfl⟩, h⟩ := h
    unfold ofParts at h
    rw [dif_pos (show data.length ≤ maxPayload from hlen)] at h
    obtain ⟨rfl, rfl⟩ := Reader.pure_eq_ok.1 h
    exact ⟨by simp [layout], rfl⟩
  · rintro ⟨rfl, rfl⟩
    exact Reader.decodeAll_eq_ok.1 f.decodeAll_layout

end Frame

end HardwareSigner
