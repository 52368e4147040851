import HardwareSigner.Buffer.Records
import HardwareSigner.Proofs.Buffer.Writing
import HardwareSigner.Proofs.Wire.Lossless

/-! What it is that a record is in range, and what follows of it: values are written in buffers of
their own, take all the bytes there are or not, and are put into the payloads of frames. -/

namespace HardwareSigner

open Buffer

/-- Values that get into buffers of any length, and out of any bytes, as they get on the wire. A
buffer that is shorter than what is counted for a value is found to be so. -/
structure Ranged (α : Type) [Record α] [Codec α] : Prop where
  size : ∀ r : α, Codec.size r = Record.encodedLength r
  counted : ∀ (r : α) d, Record.encode r = .ok d → Codec.size r = .ok d.length
  write : ∀ (r : α) buff, (Codec.write r buff).InRange
    ((Record.encodeInto r buff.length).map fun d => (d.length, overlay d buff))
  short : ∀ (r : α) buff n, Codec.size r = .ok n → buff.length < n →
    Codec.write r buff = .error .invalidLength
  written : ∀ r : α, (written r).InRange (Record.encode r)
  parse : ∀ b, (Codec.parse b : Outcome WireError (α × Nat)).InRange (Record.decode b)

/-- The same for what a command frame carries. -/
structure RangedRequest (α : Type) [Request α] [Codec α] : Prop extends Ranged α where
  pack : ∀ (r : α) p1 p2, (Frame.pack r p1 p2).InRange (Frame.ofRequest r p1 p2)

/-! ### What is counted -/

namespace Record

variable {α : Type} [Record α]

/-- The length that is counted for a value is that of its bytes, if it has any. -/
structure Counted (α : Type) [Record α] : Prop where
  of_ok : ∀ (r : α) d, encode r = .ok d → encodedLength r = .ok d.length
  of_error : ∀ (r : α) e, encode r = .error e → e = .invalidLength
  missing : ∀ (r : α) e, encodedLength r = .error e → encode r = .error e

theorem Counted.of_layout {layout : α → Bytes} (henc : ∀ r : α, encode r = .ok (layout r))
    (hlen : ∀ r : α, encodedLength r = .ok (layout r).length) : Counted α where
  of_ok r d h := by
    rw [henc] at h
    cases h
    exact hlen r
  of_error r e h := by
    rw [henc] at h
    cases h
  missing r e h := by
    rw [hlen] at h
    cases h

/-- A value has bytes, which are counted themselves, unless this text in it is too long. -/
structure Limited (layout text : α → Bytes) : Prop where
  encode_of_le : ∀ r, (text r).length ≤ 255 → encode r = .ok (layout r)
  encode_of_lt : ∀ r, 255 < (text r).length → encode r = .error .invalidLength
  encodedLength_eq : ∀ r : α, encodedLength r = (encode r).map List.length

section Limited

variable {layout text : α → Bytes} (hl : Limited layout text)

include hl

theorem Limited.encode_eq_ok {r : α} {d : Bytes} (h : encode r = .ok d) :
    (text r).length ≤ 255 ∧ d = layout r := by
  by_cases hle : (text r).length ≤ 255
  · rw [hl.encode_of_le r hle] at h
    cases h
    exact ⟨hle, rfl⟩
  · rw [hl.encode_of_lt r (Nat.lt_of_not_le hle)] at h
    cases h

theorem Limited.eq_invalidLength {r : α} {e : WireError} (h : encode r = .error e) :
    e = .invalidLength := by
  by_cases hle : (text r).length ≤ 255
  · rw [hl.encode_of_le r hle] at h
    cases h
  · rw [hl.encode_of_lt r (Nat.lt_of_not_le hle)] at h
    cases h
    rfl

theorem Limited.encodedLength_eq_ite (r : α) : encodedLength r =
    if 255 < (text r).length then .error .invalidLength else .ok (layout r).length := by
  rw [hl.encodedLength_eq]
  by_cases hlt : 255 < (text r).length
  · rw [if_pos hlt, hl.encode_of_lt r hlt]
    rfl
  · rw [if_neg hlt, hl.encode_of_le r (Nat.le_of_not_lt hlt)]
    rfl

theorem Limited.counted : Counted α where
  of_ok r d h := by rw [hl.encodedLength_eq, h]; rfl
  of_error _ _ := hl.eq_invalidLength
  missing r e h := by
    rw [hl.encodedLength_eq] at h
    cases henc : encode r with
    | error e' =>
      rw [henc] at h
      cases h
      rfl
    | ok d =>
      rw [henc] at h
      cases h

end Limited

theorem Counted.laid_eq (hc : Counted α) (r : α) (buff : Bytes) :
    laid (encode r) buff =
      (encodeInto r buff.length).map fun d => (d.length, overlay d buff) := by
  rw [encodeInto]
  cases henc : encode r with
  | ok d =>
    rw [hc.of_ok r d henc]
    by_cases h : d.length ≤ buff.length
    · simp [laid_of_le h, bind, Except.bind, Nat.not_lt.2 h, Except.map]
    · simp [laid_of_lt (Nat.lt_of_not_le h), bind, Except.bind, Nat.lt_of_not_le h, Except.map,
        throw, throwThe, MonadExceptOf.throw]
  | error e =>
    obtain rfl := hc.of_error r e henc
    cases hlen : encodedLength r with
    | error e =>
      obtain rfl : WireError.invalidLength = e :=
        Except.error.inj (henc.symm.trans (hc.missing r e hlen))
      rfl
    | ok n =>
      by_cases h : buff.length < n <;>
        simp [laid, bind, Except.bind, h, Except.map, throw, throwThe, MonadExceptOf.throw]

end Record

theorem Ranged.of_writes {α : Type} [Record α] [Codec α] (hc : Record.Counted α)
    (hsize : ∀ r : α, Codec.size r = Record.encodedLength r)
    (hwrite : ∀ r : α, Writes (Codec.write r) (Record.encode r))
    (hparse : ∀ b, (Codec.parse b : Outcome WireError (α × Nat)) = .of (Record.decode b)) :
    Ranged α where
  size := hsize
  counted r d h := (hsize r).trans (hc.of_ok r d h)
  write r buff := by
    apply Outcome.InRange.of_eq
    rw [hwrite r buff, hc.laid_eq]
  short r buff n hn h := by
    rw [hwrite r buff, hc.laid_eq, Record.encodeInto, ← hsize, hn]
    simp [bind, Except.bind, h, Except.map, throw, throwThe, MonadExceptOf.throw]
  written r := by
    apply Outcome.InRange.of_eq
    rw [Buffer.written, hsize]
    cases hlen : Record.encodedLength r with
    | error e =>
      rw [hc.missing r e hlen]
      rfl
    | ok n =>
      change (Codec.write r (List.replicate n 0) >>= fun p => Outcome.ok (p.2.take p.1)) = _
      rw [hwrite r]
      cases henc : Record.encode r with
      | error e =>
        rw [hc.of_error r e henc]
        rfl
      | ok d =>
        obtain rfl : n = d.length := Except.ok.inj (hlen.symm.trans (hc.of_ok r d henc))
        rw [laid_of_le (by rw [List.length_replicate])]
        exact congrArg Outcome.ok (take_overlay d _)
  parse b := .of_eq (hparse b)

theorem Reader.decode_pure {α : Type} (r : α) (b : Bytes) :
    (pure r : Reader α).decode b = .ok (r, 0) := by
  change Except.ok (r, b.length - b.length) = _
  rw [Nat.sub_self]

theorem Ranged.of_empty {α : Type} [Record α] [Codec α] (r : α)
    (henc : ∀ r : α, Record.encode r = .ok []) (hlen : ∀ r : α, Record.encodedLength r = .ok 0)
    (hsize : ∀ r : α, Codec.size r = .ok 0) (hwrite : ∀ r : α, Codec.write r = pure 0)
    (hread : (Record.read : Reader α) = pure r) (hparse : ∀ b, Codec.parse b = .ok (r, 0)) :
    Ranged α := by
  have hcounted : Record.Counted α := .of_layout henc hlen
  refine .of_writes hcounted (fun r => (hsize r).trans (hlen r).symm) (fun r buff => ?_) fun b => ?_
  · rw [hwrite, henc]
    rfl
  · rw [hparse, Record.decode, hread, Reader.decode_pure]
    rfl

/-! ### All the bytes there are -/

section Whole

open Reader

theorem Ranged.whole_eq {α : Type} [Record α] [Codec α] (h : Ranged α)
    (hread : (Record.read : Reader α).Advances) (b : Bytes) :
    whole b = .of ((Record.read : Reader α).decodeAll b) := by
  rw [whole, (h.parse b).eq_of, Record.decode, decode_eq_map, decodeAll]
  cases hb : (Record.read : Reader α) b with
  | error e => rfl
  | ok p =>
    obtain ⟨a, rest⟩ := p
    have hlen := (hread b a rest hb).length_le
    change (consumed (b.length - rest.length) b >>= fun _ => Outcome.ok a) = _
    cases rest with
    | nil =>
      rw [consumed, List.length_nil, Nat.sub_zero, if_pos rfl]
      rfl
    | cons x rest =>
      rw [List.length_cons] at hlen ⊢
      rw [consumed, if_neg (by omega)]
      rfl

theorem Ranged.map_whole {α β : Type} [Record α] [Codec α] (h : Ranged α)
    (hread : (Record.read : Reader α).Advances) (make : α → β) (b : Bytes) :
    make <$> whole b = .of ((make <$> (Record.read : Reader α)).decodeAll b) := by
  rw [h.whole_eq hread, decodeAll, decodeAll]
  cases hb : (Record.read : Reader α) b with
  | error e =>
    have hmap : (make <$> (Record.read : Reader α)) b = .error e := by
      rw [← bind_pure_comp]
      exact bind_error hb
    rw [hmap]
    rfl
  | ok p =>
    obtain ⟨a, rest⟩ := p
    rw [map_of_ok hb]
    cases rest with
    | nil => rfl
    | cons x rest => rfl

theorem Ranged.parse_whole {α : Type} [Record α] [Codec α] (h : Ranged α)
    (hwhole : ∀ b a rest, (Record.read : Reader α) b = .ok (a, rest) → rest = []) (b : Bytes) :
    Codec.parse b =
      .of (((Record.read : Reader α).decodeAll b).map fun r => (r, b.length)) := by
  rw [(h.parse b).eq_of, Record.decode, decode_eq_map, decodeAll]
  cases hb : (Record.read : Reader α) b with
  | error e => rfl
  | ok p =>
    obtain ⟨a, rest⟩ := p
    obtain rfl := hwhole b a rest hb
    rfl

end Whole

/-! ### Payloads -/

namespace Frame

variable {α : Type} [Request α] [Codec α]

theorem fill_written (h : Ranged α) {r : α} {n : Nat} (hsize : Codec.size r = .ok n)
    (hn : n ≤ maxPayload) (cla ins p1 p2 : UInt8) :
    (Codec.write r (List.replicate n 0) >>= fun q => fill cla ins p1 p2 (q.2.take q.1)) =
      Outcome.of (Record.encode r) >>= fun data => .of (ofParts cla ins p1 p2 data) := by
  have hwritten : (Codec.write r (List.replicate n 0) >>= fun q => .ok (q.2.take q.1)) =
      Outcome.of (Record.encode r) := by
    rw [← (h.written r).eq_of, written, hsize]
    rfl
  have hfill : ∀ d, Record.encode r = .ok d →
      fill cla ins p1 p2 d = .of (ofParts cla ins p1 p2 d) := by
    intro d hd
    obtain rfl : n = d.length := Except.ok.inj (hsize.symm.trans (h.counted r d hd))
    rw [fill, ofParts, dif_pos hn]
    rfl
  calc
    _ = (Codec.write r (List.replicate n 0) >>= fun q => .ok (q.2.take q.1)) >>=
        fill cla ins p1 p2 := (Outcome.bind_bind ..).symm
    _ = Outcome.of (Record.encode r) >>= fill cla ins p1 p2 := by rw [hwritten]
    _ = _ := by
      cases henc : Record.encode r with
      | error e => rfl
      | ok d => exact hfill d henc

theorem pack_eq (h : Ranged α) (r : α) (p1 p2 : UInt8) :
    pack r p1 p2 = .of (ofRequest r p1 p2) := by
  rw [pack, ofRequest, Outcome.of_bind, ← h.size]
  cases hsize : Codec.size r with
  | error e => rfl
  | ok n =>
    rw [Outcome.of_ok, Outcome.ok_bind, Outcome.ok_bind]
    dsimp only
    by_cases hn : maxPayload < n
    · rw [if_pos hn, if_pos hn]
      rfl
    · rw [if_neg hn, if_neg hn, Outcome.of_bind]
      exact fill_written h hsize (Nat.le_of_not_lt hn) ..

end Frame

theorem RangedRequest.of_ranged {α : Type} [Request α] [Codec α] (h : Ranged α) :
    RangedRequest α where
  toRanged := h
  pack r p1 p2 := .of_eq (Frame.pack_eq h r p1 p2)

end HardwareSigner
