import HardwareSigner.Text.Decimal
import HardwareSigner.Text.Hex

/-! A number is what its decimal digits say, and its digits are digits, with no zero in front of
others. Bytes are what their pairs of hexadecimal digits say. -/

namespace HardwareSigner

namespace Decimal

theorem value_eq_ofDigitChars (cs : List Char) : value cs = Nat.ofDigitChars 10 cs 0 := by
  rw [Nat.ofDigitChars_eq_foldl]
  simp [value, Nat.mul_comm]

@[simp] theorem value_digits (n : Nat) : value (digits n) = n := by
  rw [value_eq_ofDigitChars, digits, Nat.ofDigitChars_ten_toDigits]

theorem digits_ne_nil (n : Nat) : digits n ≠ [] := Nat.toDigits_ne_nil

theorem isDigit_of_mem_digits {n : Nat} {c : Char} (h : c ∈ digits n) : c.isDigit = true :=
  Nat.isDigit_of_mem_toDigits (by decide) (by decide) h

/-- Only the number zero begins with the digit zero. -/
theorem digits_eq_of_head {n : Nat} (h : (digits n).head? = some '0') : digits n = ['0'] := by
  induction n using Nat.base_induction 10 (by decide) with
  | single m hm =>
    rw [digits, Nat.toDigits_of_lt_base hm] at h ⊢
    simpa using h
  | digit m k hk hm ih =>
    have hsplit : digits (10 * m + k) = digits m ++ digits k :=
      (Nat.toDigits_append_toDigits (by decide) hm hk).symm
    obtain ⟨c, cs, hcons⟩ := List.exists_cons_of_ne_nil (digits_ne_nil m)
    have hhead : (digits m).head? = some '0' := by simpa [hsplit, hcons] using h
    have hzero : value (digits m) = value ['0'] := congrArg value (ih hhead)
    rw [value_digits] at hzero
    exact absurd hzero (Nat.ne_of_gt hm)

end Decimal

namespace Hex

theorem value?_digit {n : Nat} (h : n < 16) : value? (digit n) = some n := by
  have hall : ∀ n : Fin 16, value? (digit n) = some n.val := by decide
  exact hall ⟨n, h⟩

/-- Bytes are read back from the digits that are written for them. -/
@[simp] theorem decode?_encodeChars (b : Bytes) : decode? (encodeChars b) = some b := by
  induction b with
  | nil => rfl
  | cons x b ih =>
    have hx := x.toNat_lt
    have hhigh := value?_digit (show x.toNat / 16 < 16 by omega)
    have hlow := value?_digit (show x.toNat % 16 < 16 by omega)
    have hwhole : UInt8.ofNat (16 * (x.toNat / 16) + x.toNat % 16) = x := by
      rw [Nat.div_add_mod, UInt8.ofNat_toNat]
    change decode? (digit (x.toNat / 16) :: digit (x.toNat % 16) :: encodeChars b) = _
    simp only [decode?, hhigh, hlow, ih, Option.bind_eq_bind, Option.bind_some, hwhole]
    rfl

theorem mem_digits_of_mem_encodeChars {b : Bytes} {c : Char} (h : c ∈ encodeChars b) :
    c ∈ digits := by
  have hall : ∀ n : Fin 16, digit n ∈ digits := by decide
  obtain ⟨x, -, hc⟩ := List.mem_flatMap.1 h
  have hx := x.toNat_lt
  simp only [List.mem_cons, List.not_mem_nil, or_false] at hc
  rcases hc with rfl | rfl
  · exact hall ⟨x.toNat / 16, by omega⟩
  · exact hall ⟨x.toNat % 16, by omega⟩

end Hex

end HardwareSigner
