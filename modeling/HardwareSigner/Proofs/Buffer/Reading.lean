import Mathlib.Data.List.Infix
import HardwareSigner.Buffer.Fields
import HardwareSigner.Proofs.Wire.Answers

/-! What is taken off a buffer by its place is what a reader takes off the front of the bytes that
stand there. A reader leaves the end of what it was given, so the place behind a value says the same
as the bytes that are left. -/

namespace HardwareSigner

namespace Buffer

/-! ### Outcomes -/

namespace Outcome

variable {ε δ α β : Type}

@[simp] theorem pure_eq (a : α) : (pure a : Outcome ε α) = .ok a := rfl

@[simp] theorem ok_bind (a : α) (f : α → Outcome ε β) : (Outcome.ok a >>= f) = f a := rfl

@[simp] theorem error_bind (e : ε) (f : α → Outcome ε β) : (Outcome.error e >>= f) = .error e := rfl

theorem bind_bind {γ : Type} (x : Outcome ε α) (f : α → Outcome ε β) (g : β → Outcome ε γ) :
    x >>= f >>= g = x >>= fun a => f a >>= g := by
  cases x <;> rfl

@[simp] theorem of_ok (a : α) : (of (.ok a) : Outcome ε α) = .ok a := rfl

@[simp] theorem of_error (e : ε) : (of (.error e) : Outcome ε α) = .error e := rfl

theorem of_eq_ok {x : Except ε α} {a : α} : of x = .ok a ↔ x = .ok a := by
  cases x <;> simp [of]

theorem of_bind (x : Except ε α) (f : α → Except ε β) :
    of (x >>= f) = of x >>= fun a => of (f a) := by
  cases x <;> rfl

theorem ite_eq {c : Prop} [Decidable c] {x x' : Outcome ε α} {y y' : Except ε α}
    (hc : c → x' = of y') (hn : ¬c → x = of y) :
    (if c then x' else x) = of (if c then y' else y) := by
  by_cases h : c
  · rw [if_pos h, if_pos h, hc h]
  · rw [if_neg h, if_neg h, hn h]

@[simp] theorem mapError_ok (g : ε → δ) (a : α) : (Outcome.ok a).mapError g = .ok a := rfl

@[simp] theorem mapError_error (g : ε → δ) (e : ε) :
    (Outcome.error e : Outcome ε α).mapError g = .error (g e) := rfl

/-- No place is reached for that is not there, and the end is that of a computation that knows of
no places. -/
structure InRange (x : Outcome ε α) (y : Except ε α) : Prop where
  eq_of : x = of y
  ne_fault : ∀ f, x ≠ .fault f

theorem InRange.of_eq {x : Outcome ε α} {y : Except ε α} (h : x = of y) : x.InRange y := by
  refine ⟨h, fun f => ?_⟩
  rw [h]
  cases y <;> simp [of]

end Outcome

/-! ### Places that are there -/

section Places

variable {ε : Type} {b : Bytes} {i n : Nat}

theorem get_eq {α : Type} {l : List α} (h : i < l.length) : (get l i : Outcome ε α) = .ok l[i] := by
  rw [get, List.getElem?_eq_getElem h]

theorem upTo_eq (h : i ≤ b.length) : (upTo b i : Outcome ε Bytes) = .ok (b.take i) := if_pos h

theorem onFrom_eq (h : i ≤ b.length) : (onFrom b i : Outcome ε Bytes) = .ok (b.drop i) := if_pos h

theorem between_eq {j : Nat} (hj : j = i + n) (h : j ≤ b.length) :
    (between b i j : Outcome ε Bytes) = .ok ((b.drop i).take n) := by
  subst hj
  rw [between, if_pos ⟨Nat.le_add_right i n, h⟩, List.drop_take, Nat.add_sub_cancel_left]

theorem word_eq (h : b.length = n) : (word n b : Outcome ε Nat) = .ok (Bytes.toNatBE b) := by
  rw [word, if_pos h.ge, List.take_of_length_le h.le]

theorem block_eq (h : b.length = n) : (block n b : Outcome ε (Block n)) = .ok ⟨b, h⟩ := dif_pos h

theorem minus_eq {m : Nat} (h : n ≤ m) : (minus m n : Outcome ε Nat) = .ok (m - n) := if_pos h

end Places

end Buffer

namespace Reader

open Buffer

variable {α β : Type} {b rest : Bytes} {i n : Nat}

/-! ### Readers at a place -/

theorem map_of_ok {r : Reader α} {f : α → β} {a : α} (h : r b = .ok (a, rest)) :
    (f <$> r) b = .ok (f a, rest) := map_eq_ok.2 ⟨a, h, rfl⟩

theorem byte_drop (h : i < b.length) : byte (b.drop i) = .ok (b[i], b.drop (i + 1)) := by
  rw [List.drop_eq_getElem_cons h]
  rfl

theorem take_drop (h : i + n ≤ b.length) :
    take n (b.drop i) = .ok ((b.drop i).take n, b.drop (i + n)) := by
  rw [take, if_neg (by rw [List.length_drop]; omega), List.drop_drop]

theorem length_take_drop (h : i + n ≤ b.length) : ((b.drop i).take n).length = n := by
  rw [List.length_take, List.length_drop]
  omega

theorem block_drop (h : i + n ≤ b.length) :
    block n (b.drop i) = .ok (⟨(b.drop i).take n, length_take_drop h⟩, b.drop (i + n)) := by
  apply block_eq_ok.2
  rw [← List.drop_drop, List.take_append_drop]

theorem nat_drop (h : i + n ≤ b.length) :
    nat n (b.drop i) = .ok (Bytes.toNatBE ((b.drop i).take n), b.drop (i + n)) :=
  map_of_ok (take_drop h)

theorem uint16_drop (h : i + 2 ≤ b.length) : uint16 (b.drop i) =
    .ok (UInt16.ofNat (Bytes.toNatBE ((b.drop i).take 2)), b.drop (i + 2)) :=
  map_of_ok (nat_drop h)

theorem uint32_drop (h : i + 4 ≤ b.length) : uint32 (b.drop i) =
    .ok (UInt32.ofNat (Bytes.toNatBE ((b.drop i).take 4)), b.drop (i + 4)) :=
  map_of_ok (nat_drop h)

theorem uint64_drop (h : i + 8 ≤ b.length) : uint64 (b.drop i) =
    .ok (UInt64.ofNat (Bytes.toNatBE ((b.drop i).take 8)), b.drop (i + 8)) :=
  map_of_ok (nat_drop h)

/-! ### Too few bytes -/

/-- With fewer bytes than these a reader finds the length wrong. -/
def Wants (r : Reader α) (n : Nat) : Prop := ∀ b, b.length < n → r b = .error .invalidLength

/-- A reader wants so many bytes and takes no more of them. -/
structure Fixed (r : Reader α) (n : Nat) : Prop where
  wants : r.Wants n
  takes : ∀ b, n ≤ b.length → ∃ a, r b = .ok (a, b.drop n)

theorem wants_zero (r : Reader α) : r.Wants 0 := fun _ h => absurd h (Nat.not_lt_zero _)

theorem Wants.bind {r : Reader α} {f : α → Reader β} (hr : r.Wants n) : (r >>= f).Wants n :=
  fun b hb => bind_error (hr b hb)

theorem Fixed.bind_wants {r : Reader α} {f : α → Reader β} {m : Nat} (hr : r.Fixed m)
    (hf : ∀ a, (f a).Wants n) : (r >>= f).Wants (m + n) := by
  intro b hb
  by_cases hm : b.length < m
  · exact bind_error (hr.wants b hm)
  · obtain ⟨a, ha⟩ := hr.takes b (Nat.le_of_not_lt hm)
    rw [bind_of_ok ha]
    exact hf a _ (by rw [List.length_drop]; omega)

theorem Fixed.map {r : Reader α} (f : α → β) (hr : r.Fixed n) : (f <$> r).Fixed n where
  wants b hb := by
    rw [← bind_pure_comp]
    exact bind_error (hr.wants b hb)
  takes b hb := by
    obtain ⟨a, ha⟩ := hr.takes b hb
    exact ⟨f a, map_of_ok ha⟩

/-- With more bytes or fewer than these a reader finds the length wrong. -/
def Fills (r : Reader α) (n : Nat) : Prop := ∀ b, b.length ≠ n → r b = .error .invalidLength

theorem Fixed.bind_fills {r : Reader α} {f : α → Reader β} {m : Nat} (hr : r.Fixed m)
    (hf : ∀ a, (f a).Fills n) : (r >>= f).Fills (m + n) := by
  intro b hb
  by_cases hm : b.length < m
  · exact bind_error (hr.wants b hm)
  · obtain ⟨a, ha⟩ := hr.takes b (Nat.le_of_not_lt hm)
    rw [bind_of_ok ha]
    exact hf a _ (by rw [List.length_drop]; omega)

theorem fills_ending (f : Unit → Reader α) : (ending >>= f).Fills 0 := by
  intro b hb
  apply bind_error
  cases b with
  | nil => exact absurd rfl hb
  | cons x b => rfl

theorem Fixed.times {r : Reader α} {m : Nat} (hr : r.Fixed m) (n : Nat) :
    (r.times n).Fixed (n * m) := by
  induction n with
  | zero => exact ⟨by rw [Nat.zero_mul]; exact wants_zero _, fun b _ => ⟨[], by simp; rfl⟩⟩
  | succ n ih =>
    rw [Nat.succ_mul, Nat.add_comm (n * m)]
    refine ⟨hr.bind_wants fun a => ih.wants.bind, fun b hb => ?_⟩
    obtain ⟨a, ha⟩ := hr.takes b (by omega)
    obtain ⟨as, has⟩ := ih.takes (b.drop m) (by rw [List.length_drop]; omega)
    refine ⟨a :: as, ?_⟩
    rw [Reader.times, bind_of_ok ha, bind_of_ok has, List.drop_drop]
    rfl

theorem fixed_byte : byte.Fixed 1 where
  wants b hb := by
    obtain rfl := List.length_eq_zero_iff.1 (Nat.lt_one_iff.1 hb)
    rfl
  takes _ hb := ⟨_, byte_drop hb⟩

theorem fixed_take (n : Nat) : (take n).Fixed n where
  wants _ hb := if_pos hb
  takes b hb := ⟨b.take n, if_neg (Nat.not_lt.2 hb)⟩

theorem fixed_block (n : Nat) : (block n).Fixed n where
  wants _ hb := dif_neg (Nat.not_le.2 hb)
  takes b hb := ⟨⟨b.take n, by simp [hb]⟩, dif_pos hb⟩

theorem fixed_nat (n : Nat) : (nat n).Fixed n := (fixed_take n).map _

theorem fixed_uint16 : uint16.Fixed 2 := (fixed_nat 2).map _

theorem fixed_uint32 : uint32.Fixed 4 := (fixed_nat 4).map _

theorem fixed_uint64 : uint64.Fixed 8 := (fixed_nat 8).map _

/-! ### Fields one behind the other -/

/-- What a reader leaves is the end of what it was given. -/
def Advances (r : Reader α) : Prop := ∀ b a rest, r b = .ok (a, rest) → rest <:+ b

theorem Inverts.advances {r : Reader α} {written : α → Bytes} {valid : α → Prop}
    (hr : r.Inverts written valid) : r.Advances := by
  intro b a rest h
  obtain ⟨-, rfl⟩ := hr.of_read b a rest h
  exact List.suffix_append _ _

theorem advances_nat (n : Nat) : (nat n).Advances := by
  intro b v rest h
  obtain ⟨d, -, rfl, -⟩ := nat_eq_ok.1 h
  exact List.suffix_append _ _

theorem decode_eq_map (r : Reader α) (b : Bytes) :
    r.decode b = (r b).map fun p => (p.1, b.length - p.2.length) := by
  unfold decode
  split <;> rename_i h <;> rw [h] <;> rfl

/-- What is done with the bytes from a place on is what a reader does with them, and ends where the
reader stops. -/
def Follows (b : Bytes) (i : Nat) (x : Outcome WireError (α × Nat)) (r : Reader α) : Prop :=
  x = .of ((r (b.drop i)).map fun p => (p.1, b.length - p.2.length))

theorem Follows.eq_decode {x : Outcome WireError (α × Nat)} {r : Reader α} (h : Follows b 0 x r) :
    x = .of (r.decode b) := by
  rw [decode_eq_map]
  exact h

theorem Follows.pure {a : α} (hi : i ≤ b.length) : Follows b i (pure (a, i)) (pure a) := by
  have hlen : b.length - (b.drop i).length = i := by rw [List.length_drop]; omega
  exact congrArg (fun n => Outcome.ok (a, n)) hlen.symm

theorem Follows.pure_of_eq {a : α} {j : Nat} (hj : i = j) (hi : i ≤ b.length) :
    Follows b i (Pure.pure (a, j)) (Pure.pure a) := hj ▸ .pure hi

theorem Follows.refuse (e : WireError) :
    Follows b i (Outcome.error e) (refuse e : Reader α) := rfl

/-- Nothing is done where a reader would find too few bytes. -/
theorem Follows.wants {γ : Type} {r : Reader α} {x : Outcome WireError (α × Nat)}
    {k : γ → Outcome WireError (α × Nat)} {m : Nat} (hr : r.Wants n) (hm : m = i + n)
    (hi : i ≤ b.length) (hx : m ≤ b.length → Follows b i x r) :
    Follows b i (if b.length < m then Outcome.error .invalidLength >>= k else x) r := by
  by_cases h : b.length < m
  · rw [if_pos h, Follows, hr _ (by rw [List.length_drop]; omega)]
    rfl
  · rw [if_neg h]
    exact hx (Nat.le_of_not_lt h)

theorem Follows.guard {γ δ : Type} {c : Prop} [Decidable c] {e : WireError} {r : Reader α}
    {f : γ → Reader α} {x : Outcome WireError (α × Nat)} {k : δ → Outcome WireError (α × Nat)}
    (hx : ¬c → Follows b i x r) :
    Follows b i (if c then Outcome.error e >>= k else x)
      (if c then Reader.refuse e >>= f else r) := by
  by_cases h : c
  · rw [if_pos h, if_pos h]
    rfl
  · rw [if_neg h, if_neg h]
    exact hx h

theorem Follows.read {r : Reader α} {f : α → Reader β} {x : Outcome WireError (β × Nat)} {a : α}
    {j : Nat} (hr : r (b.drop i) = .ok (a, b.drop j)) (hx : Follows b j x (f a)) :
    Follows b i x (r >>= f) := by
  rw [Follows, bind_of_ok hr]
  exact hx

section Reached

variable {j : Nat} {r : Reader α}

theorem Follows.get {k : UInt8 → Outcome WireError (α × Nat)} (h : j < b.length)
    (hx : Follows b i (k b[j]) r) : Follows b i (get b j >>= k) r := by
  rw [get_eq h]
  exact hx

theorem Follows.word {k : Nat → Outcome WireError (α × Nat)} {m : Nat} (hm : m = j + n)
    (h : m ≤ b.length) (hx : Follows b i (k (Bytes.toNatBE ((b.drop j).take n))) r) :
    Follows b i (between b j m >>= fun d => word n d >>= k) r := by
  rw [between_eq hm h, Outcome.ok_bind, word_eq (length_take_drop (hm ▸ h))]
  exact hx

theorem Follows.block {k : Block n → Outcome WireError (α × Nat)} (h : j + n ≤ b.length)
    (hx : Follows b i (k ⟨(b.drop j).take n, length_take_drop h⟩) r) :
    Follows b i (onFrom b j >>= fun d => upTo d n >>= fun d => Buffer.block n d >>= k) r := by
  rw [onFrom_eq (by omega), Outcome.ok_bind, upTo_eq (by rw [List.length_drop]; omega),
    Outcome.ok_bind, block_eq (length_take_drop h)]
  exact hx

end Reached

theorem Follows.prefixed {f : Bytes → Reader α} {x : Outcome WireError (α × Nat)}
    (h : i < b.length) (hx : Follows b (i + 1) x (take b[i].toNat >>= f)) :
    Follows b i x (lengthPrefixed >>= f) := by
  rw [lengthPrefixed, bind_assoc]
  exact .read (byte_drop h) hx

theorem Follows.ended {f : Unit → Reader α} {x : Outcome WireError (α × Nat)}
    (h : i = b.length) (hx : Follows b i x (f ())) : Follows b i x (Reader.ending >>= f) := by
  refine .read (i := i) (j := i) (a := ()) ?_ hx
  rw [h, List.drop_length]
  rfl

/-- Nothing is read where the bytes do not have the length that a reader finds wrong otherwise. -/
theorem Follows.fills {r : Reader α} (hr : r.Fills n) (hn : b.length ≠ i + n)
    (hi : i ≤ b.length) : Follows b i (Outcome.error .invalidLength) r := by
  rw [Follows, hr _ (by rw [List.length_drop]; omega)]
  rfl

theorem Follows.ending {k : Unit → Outcome WireError (α × Nat)} {f : Unit → Reader α}
    (hi : i ≤ b.length) (hk : i = b.length → Follows b i (k ()) (f ())) :
    Follows b i (consumed i b >>= k) (ending >>= f) := by
  by_cases h : i = b.length
  · rw [consumed, if_pos h]
    exact .ended h (hk h)
  · rw [consumed, if_neg h]
    exact .fills (fills_ending f) (Ne.symm h) hi

theorem Follows.field {p : Bytes → Outcome WireError (α × Nat)} {r : Reader α}
    {k : α × Nat → Outcome WireError (β × Nat)} {f : α → Reader β}
    (hp : ∀ b, p b = .of (r.decode b)) (hr : r.Advances) (hi : i ≤ b.length)
    (hk : ∀ a j, j ≤ b.length → Follows b j (k (a, j)) (f a)) :
    Follows b i (parseAt b i p >>= k) (r >>= f) := by
  rw [Follows, parseAt, onFrom_eq hi, Outcome.ok_bind, hp, decode_eq_map]
  cases h : r (b.drop i) with
  | error e =>
    rw [bind_error h]
    rfl
  | ok q =>
    obtain ⟨a, rest⟩ := q
    have hsuffix := hr _ _ _ h
    have hlen := hsuffix.length_le
    rw [List.length_drop] at hlen
    have hrest : rest = b.drop (b.length - rest.length) :=
      List.suffix_iff_eq_drop.1 (hsuffix.trans (List.drop_suffix i b))
    have hplace : i + ((b.drop i).length - rest.length) = b.length - rest.length := by
      rw [List.length_drop]
      omega
    rw [bind_of_ok h, hrest, ← hk a _ (Nat.sub_le _ _), ← hrest, ← hplace]
    rfl

theorem exact_lengthPrefixed : lengthPrefixed.Exact AppInfo.field fun d => d.length ≤ 255 :=
  fun _ _ _ => lengthPrefixed_eq_ok

end Reader

namespace Buffer

open Reader

variable {b : Bytes}

/-! ### Fields -/

theorem parseByte_eq (b : Bytes) : parseByte b = .of (byte.decode b) := by
  cases b with
  | nil => rfl
  | cons x b => simp [parseByte, get, Reader.decode, byte]

theorem parseWord_eq (n : Nat) (b : Bytes) : parseWord n b = .of ((nat n).decode b) := by
  rw [decode_eq_map, parseWord]
  by_cases h : b.length < n
  · rw [if_pos h, (fixed_nat n).wants b h]
    rfl
  · have hle := Nat.le_of_not_lt h
    have htake : (b.take n).length = n := List.length_take_of_le hle
    have hread : nat n b = .ok (Bytes.toNatBE (b.take n), b.drop n) :=
      map_of_ok (take_eq_ok.2 ⟨htake, (List.take_append_drop n b).symm⟩)
    rw [if_neg h, upTo_eq hle, hread]
    simp [word_eq htake, Except.map, Nat.sub_sub_self hle]

theorem parseBlock_eq (n : Nat) (b : Bytes) :
    parseBlock n b = .of ((Reader.block n).decode b) := by
  rw [decode_eq_map, parseBlock]
  by_cases h : b.length < n
  · rw [if_pos h, (fixed_block n).wants b h]
    rfl
  · have hle := Nat.le_of_not_lt h
    have htake : (b.take n).length = n := List.length_take_of_le hle
    have hread : Reader.block n b = .ok (⟨b.take n, htake⟩, b.drop n) :=
      block_eq_ok.2 (List.take_append_drop n b).symm
    rw [if_neg h, upTo_eq hle, hread]
    simp [block_eq htake, Except.map, Nat.sub_sub_self hle]

theorem parsePrefixed_eq (b : Bytes) : parsePrefixed b = .of (lengthPrefixed.decode b) := by
  cases b with
  | nil => rfl
  | cons x b =>
    rw [decode_eq_map, parsePrefixed, lengthPrefixed, bind_of_ok (byte_eq_ok.2 rfl)]
    by_cases h : b.length < x.toNat
    · simp [h, (fixed_take x.toNat).wants b h, Except.map]
    · have hle := Nat.le_of_not_lt h
      simp [h, upTo_eq hle, onFrom_eq, take, Except.map]
      omega

end Buffer

end HardwareSigner
