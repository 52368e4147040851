/-!
Byte strings, words written into them most or least significant byte first, and blocks of a
fixed number of bytes.
-/

namespace HardwareSigner

abbrev Bytes := List UInt8

namespace Bytes

/-- The low `n` bytes of a number, the most significant first. -/
def ofNatBE : Nat → Nat → Bytes
  | 0, _ => []
  | n + 1, v => UInt8.ofNat (v >>> (8 * n)) :: ofNatBE n v

def ofNatLE : Nat → Nat → Bytes
  | 0, _ => []
  | n + 1, v => UInt8.ofNat v :: ofNatLE n (v / 256)

/-- The number whose base 256 digits these are, the most significant first. -/
def toNatBE (b : Bytes) : Nat :=
  b.foldl (fun acc x => acc * 256 + x.toNat) 0

def toNatLE (b : Bytes) : Nat :=
  b.foldr (fun x acc => x.toNat + 256 * acc) 0

def ofUInt16BE (v : UInt16) : Bytes := ofNatBE 2 v.toNat
def ofUInt32BE (v : UInt32) : Bytes := ofNatBE 4 v.toNat
def ofUInt64BE (v : UInt64) : Bytes := ofNatBE 8 v.toNat

def ofUInt16LE (v : UInt16) : Bytes := ofNatLE 2 v.toNat
def ofUInt32LE (v : UInt32) : Bytes := ofNatLE 4 v.toNat
def ofUInt64LE (v : UInt64) : Bytes := ofNatLE 8 v.toNat

@[simp] theorem length_ofNatBE (n v : Nat) : (ofNatBE n v).length = n := by
  induction n with
  | zero => rfl
  | succ n ih => simp [ofNatBE, ih]

@[simp] theorem length_ofNatLE (n v : Nat) : (ofNatLE n v).length = n := by
  induction n generalizing v with
  | zero => rfl
  | succ n ih => simp [ofNatLE, ih]

@[simp] theorem length_ofUInt16BE (v : UInt16) : (ofUInt16BE v).length = 2 := length_ofNatBE ..
@[simp] theorem length_ofUInt32BE (v : UInt32) : (ofUInt32BE v).length = 4 := length_ofNatBE ..
@[simp] theorem length_ofUInt64BE (v : UInt64) : (ofUInt64BE v).length = 8 := length_ofNatBE ..
@[simp] theorem length_ofUInt16LE (v : UInt16) : (ofUInt16LE v).length = 2 := length_ofNatLE ..
@[simp] theorem length_ofUInt32LE (v : UInt32) : (ofUInt32LE v).length = 4 := length_ofNatLE ..
@[simp] theorem length_ofUInt64LE (v : UInt64) : (ofUInt64LE v).length = 8 := length_ofNatLE ..

/-- Successive pieces of `n` bytes, the last one shorter; `fuel` bounds their number. -/
def pieces (n : Nat) : Nat → Bytes → List Bytes
  | 0, _ => []
  | fuel + 1, b => if b.isEmpty then [] else b.take n :: pieces n fuel (b.drop n)

def ofText (s : String) : Bytes := s.toByteArray.data.toList

def toText? (b : Bytes) : Option String := String.fromUTF8? ⟨b.toArray⟩

end Bytes

/-- A byte string of exactly `n` bytes. -/
structure Block (n : Nat) where
  bytes : Bytes
  length_bytes : bytes.length = n
  deriving DecidableEq

namespace Block

variable {n : Nat}

@[ext] theorem ext {a b : Block n} (h : a.bytes = b.bytes) : a = b := by
  cases a; cases b; cases h; rfl

def ofBytes? (n : Nat) (b : Bytes) : Option (Block n) :=
  if h : b.length = n then some ⟨b, h⟩ else none

def zero (n : Nat) : Block n := ⟨List.replicate n 0, by simp⟩

def replicate (n : Nat) (x : UInt8) : Block n := ⟨List.replicate n x, by simp⟩

def ofNatBE (n v : Nat) : Block n := ⟨Bytes.ofNatBE n v, by simp⟩

def toNatBE (b : Block n) : Nat := Bytes.toNatBE b.bytes

def slice (b : Block n) (i m : Nat) (h : i + m ≤ n := by omega) : Block m :=
  ⟨(b.bytes.drop i).take m, by simp [b.length_bytes]; omega⟩

/-- The first coordinate of a public key, behind the format byte of either form. -/
def xOnly (b : Block (n + 33)) : Block 32 := b.slice 1 32

instance : Inhabited (Block n) := ⟨zero n⟩

end Block

end HardwareSigner
