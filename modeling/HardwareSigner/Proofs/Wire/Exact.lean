import HardwareSigner.Proofs.Wire.Reader
import HardwareSigner.Proofs.Wire.Word

/-! What a reader takes is what is written for the value it gives, byte for byte. So a value has one
wire form and a wire form one value, and where the next one begins needs no mark. -/

namespace HardwareSigner

namespace Reader

variable {α : Type} {b rest : Bytes}

/-- The reader takes exactly what is written for a value, which is one of those with a wire form. -/
def Exact (r : Reader α) (written : α → Bytes) (valid : α → Prop) : Prop :=
  ∀ b a rest, r b = .ok (a, rest) ↔ valid a ∧ b = written a ++ rest

theorem pure_eq_ok {a c : α} : (pure a : Reader α) b = .ok (c, rest) ↔ a = c ∧ b = rest := by
  constructor
  · rintro ⟨⟩
    exact ⟨rfl, rfl⟩
  · rintro ⟨rfl, rfl⟩
    rfl

theorem map_eq_ok {β : Type} {r : Reader α} {f : α → β} {c : β} :
    (f <$> r) b = .ok (c, rest) ↔ ∃ a, r b = .ok (a, rest) ∧ f a = c := by
  rw [← bind_pure_comp, bind_ok]
  simp only [pure_eq_ok]
  constructor
  · rintro ⟨a, mid, hr, hf, rfl⟩
    exact ⟨a, hr, hf⟩
  · rintro ⟨a, hr, hf⟩
    exact ⟨a, rest, hr, hf, rfl⟩

theorem byte_eq_ok {x : UInt8} : byte b = .ok (x, rest) ↔ b = x :: rest := by
  cases b with
  | nil => exact ⟨nofun, nofun⟩
  | cons y b =>
    constructor
    · rintro ⟨⟩
      rfl
    · rintro ⟨⟩
      rfl

theorem take_eq_ok {n : Nat} {d : Bytes} :
    take n b = .ok (d, rest) ↔ d.length = n ∧ b = d ++ rest := by
  unfold take
  split
  · rename_i hn
    refine ⟨nofun, ?_⟩
    rintro ⟨hd, rfl⟩
    rw [List.length_append] at hn
    omega
  · rename_i hn
    constructor
    · rintro ⟨⟩
      exact ⟨List.length_take_of_le (Nat.le_of_not_lt hn), (List.take_append_drop n b).symm⟩
    · rintro ⟨rfl, rfl⟩
      simp

theorem block_eq_ok {n : Nat} {d : Block n} :
    block n b = .ok (d, rest) ↔ b = d.bytes ++ rest := by
  unfold block
  split
  · rename_i hn
    constructor
    · rintro ⟨⟩
      exact (List.take_append_drop n b).symm
    · rintro rfl
      simp [d.length_bytes]
  · rename_i hn
    refine ⟨nofun, ?_⟩
    rintro rfl
    simp [d.length_bytes] at hn

theorem exact_byte : byte.Exact (fun x => [x]) fun _ => True := by
  intro b x rest
  rw [byte_eq_ok, true_and]
  rfl

theorem exact_take (n : Nat) : (take n).Exact id fun d => d.length = n := fun _ _ _ => take_eq_ok

theorem exact_block (n : Nat) : (block n).Exact Block.bytes fun _ => True := by
  intro b d rest
  rw [block_eq_ok, true_and]

theorem nat_eq_ok {n v : Nat} :
    nat n b = .ok (v, rest) ↔ ∃ d : Bytes, d.length = n ∧ b = d ++ rest ∧ d.toNatBE = v := by
  simp only [nat, map_eq_ok, take_eq_ok, and_assoc]

theorem uint16_eq_ok {v : UInt16} :
    uint16 b = .ok (v, rest) ↔ b = Bytes.ofUInt16BE v ++ rest := by
  simp only [uint16, map_eq_ok, nat_eq_ok]
  constructor
  · rintro ⟨_, ⟨d, hd, rfl, rfl⟩, rfl⟩
    rw [Bytes.ofUInt16BE_ofNat hd]
  · rintro rfl
    exact ⟨_, ⟨_, Bytes.length_ofUInt16BE v, rfl, rfl⟩, Bytes.ofNat_ofUInt16BE v⟩

theorem uint32_eq_ok {v : UInt32} :
    uint32 b = .ok (v, rest) ↔ b = Bytes.ofUInt32BE v ++ rest := by
  simp only [uint32, map_eq_ok, nat_eq_ok]
  constructor
  · rintro ⟨_, ⟨d, hd, rfl, rfl⟩, rfl⟩
    rw [Bytes.ofUInt32BE_ofNat hd]
  · rintro rfl
    exact ⟨_, ⟨_, Bytes.length_ofUInt32BE v, rfl, rfl⟩, Bytes.ofNat_ofUInt32BE v⟩

theorem uint64_eq_ok {v : UInt64} :
    uint64 b = .ok (v, rest) ↔ b = Bytes.ofUInt64BE v ++ rest := by
  simp only [uint64, map_eq_ok, nat_eq_ok]
  constructor
  · rintro ⟨_, ⟨d, hd, rfl, rfl⟩, rfl⟩
    rw [Bytes.ofUInt64BE_ofNat hd]
  · rintro rfl
    exact ⟨_, ⟨_, Bytes.length_ofUInt64BE v, rfl, rfl⟩, Bytes.ofNat_ofUInt64BE v⟩

theorem lengthPrefixed_eq_ok {d : Bytes} :
    lengthPrefixed b = .ok (d, rest) ↔
      d.length ≤ 255 ∧ b = UInt8.ofNat d.length :: (d ++ rest) := by
  simp only [lengthPrefixed, bind_ok, byte_eq_ok, take_eq_ok]
  constructor
  · rintro ⟨n, mid, rfl, hd, rfl⟩
    have hn := n.toNat_lt
    exact ⟨by omega, by rw [hd, UInt8.ofNat_toNat]⟩
  · rintro ⟨hd, rfl⟩
    exact ⟨_, _, rfl, (UInt8.toNat_ofNat_of_lt' (Nat.lt_succ_of_le hd)).symm, rfl⟩

theorem ending_eq_ok {u : Unit} : ending b = .ok (u, rest) ↔ b = [] ∧ rest = [] := by
  unfold ending
  cases b with
  | nil => simp [eq_comm]
  | cons x b => simp

/-- What a reader refuses on the way is not read. -/
theorem guard_eq_ok {β : Type} {c : Prop} [Decidable c] {e : WireError} {f : β → Reader α}
    {r : Reader α} {a : α} : (if c then refuse e >>= f else r) b = .ok (a, rest) ↔
      ¬c ∧ r b = .ok (a, rest) := by
  split
  · rename_i hc
    constructor
    · rintro ⟨⟩
    · exact fun h => absurd hc h.1
  · rename_i hc
    exact ⟨fun h => ⟨hc, h⟩, fun h => h.2⟩

/-- What is written for a value that has a wire form is read back as the value, and bytes are read
as a value only if they begin with what is written for it. A reader that wants all the bytes there
are is one of these, though none that is exact. -/
structure Inverts (r : Reader α) (written : α → Bytes) (valid : α → Prop) : Prop where
  of_written : ∀ a, valid a → r (written a) = .ok (a, [])
  of_read : ∀ b a rest, r b = .ok (a, rest) → valid a ∧ b = written a ++ rest

theorem Exact.inverts {r : Reader α} {written : α → Bytes} {valid : α → Prop}
    (hr : r.Exact written valid) : r.Inverts written valid where
  of_written _ ha := (hr _ _ _).2 ⟨ha, (List.append_nil _).symm⟩
  of_read _ _ _ h := (hr _ _ _).1 h

/-- The reader takes all the bytes there are. -/
theorem Inverts.of_whole {r : Reader α} {written : α → Bytes} {valid : α → Prop}
    (hr : ∀ b a rest, r b = .ok (a, rest) ↔ valid a ∧ b = written a ∧ rest = []) :
    r.Inverts written valid where
  of_written _ ha := (hr _ _ _).2 ⟨ha, rfl, rfl⟩
  of_read b a rest h := by
    obtain ⟨ha, rfl, rfl⟩ := (hr b a rest).1 h
    exact ⟨ha, (List.append_nil _).symm⟩

theorem Inverts.of_whole_total {r : Reader α} {written : α → Bytes}
    (hr : ∀ b a rest, r b = .ok (a, rest) ↔ b = written a ∧ rest = []) :
    r.Inverts written fun _ => True :=
  .of_whole fun b a rest => by rw [hr, true_and]

theorem decodeAll_map_eq_ok {β : Type} {r : Reader α} {f : α → β} {c : β} :
    (f <$> r).decodeAll b = .ok c ↔ ∃ a, r.decodeAll b = .ok a ∧ f a = c := by
  simp only [Reader.decodeAll_eq_ok, map_eq_ok]

theorem Inverts.decodeAll_eq_ok {r : Reader α} {written : α → Bytes} {valid : α → Prop}
    (hr : r.Inverts written valid) {a : α} : r.decodeAll b = .ok a ↔ valid a ∧ b = written a := by
  rw [Reader.decodeAll_eq_ok]
  constructor
  · intro h
    have hread := hr.of_read _ _ _ h
    rwa [List.append_nil] at hread
  · rintro ⟨ha, rfl⟩
    exact hr.of_written a ha

theorem Exact.decodeAll_eq_ok {r : Reader α} {written : α → Bytes} {valid : α → Prop}
    (hr : r.Exact written valid) {a : α} : r.decodeAll b = .ok a ↔ valid a ∧ b = written a :=
  hr.inverts.decodeAll_eq_ok

theorem Exact.decode_eq_ok {r : Reader α} {written : α → Bytes} {valid : α → Prop}
    (hr : r.Exact written valid) {a : α} :
    r.decode b = .ok (a, b.length) ↔ valid a ∧ b = written a := by
  unfold decode
  constructor
  · intro h
    split at h
    · rename_i c rest hread
      obtain ⟨rfl, hlen⟩ : c = a ∧ b.length - rest.length = b.length := by simpa using h
      obtain ⟨ha, rfl⟩ := (hr _ _ _).1 hread
      rw [List.length_append] at hlen
      obtain rfl := List.length_eq_zero_iff.1 (show rest.length = 0 by omega)
      exact ⟨ha, List.append_nil _⟩
    · cases h
  · rintro ⟨ha, rfl⟩
    rw [(hr _ _ _).2 ⟨ha, (List.append_nil _).symm⟩]
    rfl

/-- Pieces that are each read in full are, joined, what is written for their values in a row. -/
theorem Exact.flatten_eq {r : Reader α} {written : α → Bytes} {valid : α → Prop}
    (hr : r.Exact written valid) {pieces : List Bytes} {as : List α}
    (h : List.Forall₂ (fun b a => r.decodeAll b = .ok a) pieces as) :
    (∀ a ∈ as, valid a) ∧ pieces.flatten = as.flatMap written := by
  induction h with
  | nil => exact ⟨fun _ h => absurd h List.not_mem_nil, rfl⟩
  | cons hb _ ih =>
    obtain ⟨hvalid, rfl⟩ := hr.decodeAll_eq_ok.1 hb
    exact ⟨List.forall_mem_cons.2 ⟨hvalid, ih.1⟩, by rw [List.flatten_cons, ih.2]; rfl⟩

/-- Values in a row are read exactly if each of them is. -/
theorem Exact.times {r : Reader α} {written : α → Bytes} {valid : α → Prop}
    (hr : r.Exact written valid) (n : Nat) :
    (r.times n).Exact (fun as => as.flatMap written) fun as =>
      as.length = n ∧ ∀ a ∈ as, valid a := by
  induction n with
  | zero =>
    intro b as rest
    rw [show r.times 0 = pure [] from rfl, pure_eq_ok]
    constructor
    · rintro ⟨rfl, rfl⟩
      simp
    · rintro ⟨⟨hlen, -⟩, rfl⟩
      obtain rfl := List.length_eq_zero_iff.1 hlen
      exact ⟨rfl, rfl⟩
  | succ n ih =>
    intro b as rest
    simp only [Reader.times, bind_ok, pure_eq_ok]
    constructor
    · rintro ⟨a, mid, ha, others, mid', hothers, rfl, rfl⟩
      obtain ⟨hv, rfl⟩ := (hr _ _ _).1 ha
      obtain ⟨⟨hlen, hvalid⟩, rfl⟩ := (ih _ _ _).1 hothers
      refine ⟨⟨congrArg Nat.succ hlen, List.forall_mem_cons.2 ⟨hv, hvalid⟩⟩, ?_⟩
      rw [List.flatMap_cons, List.append_assoc]
    · rintro ⟨⟨hlen, hvalid⟩, rfl⟩
      cases as with
      | nil => cases hlen
      | cons a as =>
        obtain ⟨hv, hvalid⟩ := List.forall_mem_cons.1 hvalid
        refine ⟨a, as.flatMap written ++ rest, (hr _ _ _).2 ⟨hv, ?_⟩, as, rest,
          (ih _ _ _).2 ⟨⟨Nat.succ.inj hlen, hvalid⟩, rfl⟩, rfl, rfl⟩
        rw [List.flatMap_cons, List.append_assoc]

end Reader

end HardwareSigner
