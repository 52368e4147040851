import Mathlib.Tactic.Ring
import HardwareSigner.Bytes

/-! Numbers are what their digits in base 256 say, in either order, and digits are those of the
number they say. -/

namespace HardwareSigner.Bytes

/-- The first of the digits, by division. -/
theorem ofNatBE_succ (n v : Nat) :
    ofNatBE (n + 1) v = UInt8.ofNat (v / 256 ^ n) :: ofNatBE n v := by
  rw [ofNatBE, Nat.shiftRight_eq_div_pow, Nat.pow_mul]

theorem foldl_ofNatBE (n v acc : Nat) :
    (ofNatBE n v).foldl (fun acc x => acc * 256 + x.toNat) acc = acc * 256 ^ n + v % 256 ^ n := by
  induction n generalizing acc with
  | zero => simp [ofNatBE, Nat.mod_one]
  | succ n ih =>
    have hsplit : v % 256 ^ (n + 1) = 256 ^ n * (v / 256 ^ n % 256) + v % 256 ^ n := by
      rw [Nat.pow_succ, Nat.mod_mul, Nat.add_comm]
    simp only [ofNatBE_succ, List.foldl_cons, ih, UInt8.toNat_ofNat', hsplit]
    rw [show 2 ^ 8 = 256 by rfl]
    ring

@[simp] theorem toNatBE_ofNatBE (n v : Nat) : toNatBE (ofNatBE n v) = v % 256 ^ n := by
  rw [toNatBE, foldl_ofNatBE, Nat.zero_mul, Nat.zero_add]

@[simp] theorem ofNat_ofUInt16BE (v : UInt16) : UInt16.ofNat (toNatBE (ofUInt16BE v)) = v := by
  have hlt : v.toNat < 256 ^ 2 := v.toNat_lt
  rw [ofUInt16BE, toNatBE_ofNatBE, Nat.mod_eq_of_lt hlt, UInt16.ofNat_toNat]

@[simp] theorem ofNat_ofUInt32BE (v : UInt32) : UInt32.ofNat (toNatBE (ofUInt32BE v)) = v := by
  have hlt : v.toNat < 256 ^ 4 := v.toNat_lt
  rw [ofUInt32BE, toNatBE_ofNatBE, Nat.mod_eq_of_lt hlt, UInt32.ofNat_toNat]

@[simp] theorem ofNat_ofUInt64BE (v : UInt64) : UInt64.ofNat (toNatBE (ofUInt64BE v)) = v := by
  have hlt : v.toNat < 256 ^ 8 := v.toNat_lt
  rw [ofUInt64BE, toNatBE_ofNatBE, Nat.mod_eq_of_lt hlt, UInt64.ofNat_toNat]

theorem foldl_eq_toNatBE (b : Bytes) (acc : Nat) :
    b.foldl (fun acc x => acc * 256 + x.toNat) acc = acc * 256 ^ b.length + toNatBE b := by
  induction b generalizing acc with
  | nil => simp [toNatBE]
  | cons x b ih =>
    simp only [toNatBE, List.foldl_cons, List.length_cons] at ih ⊢
    rw [ih, ih (0 * 256 + x.toNat)]
    ring

theorem toNatBE_cons (x : UInt8) (b : Bytes) :
    toNatBE (x :: b) = x.toNat * 256 ^ b.length + toNatBE b := by
  rw [toNatBE, List.foldl_cons, foldl_eq_toNatBE, Nat.zero_mul, Nat.zero_add]

theorem toNatBE_lt (b : Bytes) : toNatBE b < 256 ^ b.length := by
  induction b with
  | nil => simp [toNatBE]
  | cons x b ih =>
    have hx : x.toNat + 1 ≤ 256 := x.toNat_lt
    have hblock := Nat.mul_le_mul_right (256 ^ b.length) hx
    rw [toNatBE_cons, List.length_cons, Nat.pow_succ]
    rw [Nat.add_mul, Nat.one_mul] at hblock
    omega

/-- Only the digits asked for matter. -/
theorem ofNatBE_add_mul (n k v m : Nat) (h : n ≤ m) :
    ofNatBE n (k * 256 ^ m + v) = ofNatBE n v := by
  induction n with
  | zero => rfl
  | succ n ih =>
    have hsplit : k * 256 ^ m = 256 ^ n * (256 * (k * 256 ^ (m - (n + 1)))) := by
      rw [show m = n + 1 + (m - (n + 1)) by omega, Nat.pow_add, Nat.pow_succ]
      simp only [Nat.add_sub_cancel_left]
      ring
    have hdigit : UInt8.ofNat ((k * 256 ^ m + v) / 256 ^ n) = UInt8.ofNat (v / 256 ^ n) := by
      apply UInt8.toNat_inj.mp
      rw [hsplit, Nat.mul_add_div (Nat.pow_pos (by decide))]
      simp
    rw [ofNatBE_succ, ofNatBE_succ, hdigit, ih (by omega)]

/-- Bytes are the digits of the number they say. -/
theorem ofNatBE_toNatBE (b : Bytes) : ofNatBE b.length (toNatBE b) = b := by
  induction b with
  | nil => rfl
  | cons x b ih =>
    have hquot : (x.toNat * 256 ^ b.length + toNatBE b) / 256 ^ b.length = x.toNat := by
      rw [Nat.mul_comm, Nat.mul_add_div (Nat.pow_pos (by decide)),
        Nat.div_eq_of_lt (toNatBE_lt b), Nat.add_zero]
    rw [List.length_cons, toNatBE_cons, ofNatBE_succ, hquot, UInt8.ofNat_toNat,
      ofNatBE_add_mul _ _ _ _ le_rfl, ih]

theorem ofUInt16BE_ofNat {b : Bytes} (h : b.length = 2) :
    ofUInt16BE (UInt16.ofNat (toNatBE b)) = b := by
  have hlt := toNatBE_lt b
  rw [h] at hlt
  rw [ofUInt16BE, UInt16.toNat_ofNat_of_lt' hlt, ← h, ofNatBE_toNatBE]

theorem ofUInt32BE_ofNat {b : Bytes} (h : b.length = 4) :
    ofUInt32BE (UInt32.ofNat (toNatBE b)) = b := by
  have hlt := toNatBE_lt b
  rw [h] at hlt
  rw [ofUInt32BE, UInt32.toNat_ofNat_of_lt' hlt, ← h, ofNatBE_toNatBE]

theorem ofUInt64BE_ofNat {b : Bytes} (h : b.length = 8) :
    ofUInt64BE (UInt64.ofNat (toNatBE b)) = b := by
  have hlt := toNatBE_lt b
  rw [h] at hlt
  rw [ofUInt64BE, UInt64.toNat_ofNat_of_lt' hlt, ← h, ofNatBE_toNatBE]

@[simp] theorem toNatLE_ofNatLE (n v : Nat) : toNatLE (ofNatLE n v) = v % 256 ^ n := by
  induction n generalizing v with
  | zero => simp [ofNatLE, toNatLE, Nat.mod_one]
  | succ n ih =>
    have hrest : (ofNatLE n (v / 256)).foldr (fun x acc => x.toNat + 256 * acc) 0 =
        v / 256 % 256 ^ n := ih (v / 256)
    have hsplit : v % 256 ^ (n + 1) = v % 256 + 256 * (v / 256 % 256 ^ n) := by
      rw [Nat.pow_succ', Nat.mod_mul]
    rw [ofNatLE, toNatLE, List.foldr_cons, hrest, UInt8.toNat_ofNat', hsplit]

/-- So many digits tell numbers apart that have no more. -/
theorem ofNatLE_inj {n v w : Nat} (hv : v < 256 ^ n) (hw : w < 256 ^ n)
    (h : ofNatLE n v = ofNatLE n w) : v = w := by
  have hmod : v % 256 ^ n = w % 256 ^ n := by rw [← toNatLE_ofNatLE, h, toNatLE_ofNatLE]
  rwa [Nat.mod_eq_of_lt hv, Nat.mod_eq_of_lt hw] at hmod

theorem ofUInt16LE_injective : Function.Injective ofUInt16LE :=
  fun v w h => UInt16.toNat_inj.1 (ofNatLE_inj v.toNat_lt w.toNat_lt h)

theorem ofUInt32LE_injective : Function.Injective ofUInt32LE :=
  fun v w h => UInt32.toNat_inj.1 (ofNatLE_inj v.toNat_lt w.toNat_lt h)

theorem ofUInt64LE_injective : Function.Injective ofUInt64LE :=
  fun v w h => UInt64.toNat_inj.1 (ofNatLE_inj v.toNat_lt w.toNat_lt h)

end HardwareSigner.Bytes
