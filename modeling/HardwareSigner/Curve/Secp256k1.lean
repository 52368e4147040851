import HardwareSigner.Bytes

/-!
The curve secp256k1: arithmetic modulo its prime, points in Jacobian coordinates, and points
from and to their first coordinate.
-/

namespace HardwareSigner.Secp256k1

def prime : Nat := 0xfffffffffffffffffffffffffffffffffffffffffffffffffffffffefffffc2f

def order : Nat := 0xfffffffffffffffffffffffffffffffebaaedce6af48a03bbfd25e8cd0364141

def bits (k : Nat) : List Bool := (List.range 256).reverse.map k.testBit

def powMod (m b e : Nat) : Nat :=
  (bits e).foldl (fun acc bit => let s := acc * acc % m; if bit then s * b % m else s) 1

/-- The inverse modulo a prime: the power with exponent two less. -/
def invMod (m a : Nat) : Nat := powMod m a (m - 2)

def sub (a b : Nat) : Nat := (a + (prime - b)) % prime

/-- The point with coordinates `x / z ^ 2` and `y / z ^ 3`; at infinity `z` is zero. -/
structure Point where
  x : Nat
  y : Nat
  z : Nat
  deriving DecidableEq

namespace Point

def infinity : Point := ⟨1, 1, 0⟩

def generator : Point :=
  ⟨0x79be667ef9dcbbac55a06295ce870b07029bfcdb2dce28d959f2815b16f81798,
    0x483ada7726a3c4655da4fbfc0e1108a8fd17b448a68554199c47d08ffb10d4b8, 1⟩

def double (a : Point) : Point :=
  if a.z = 0 || a.y = 0 then infinity
  else
    let yy := a.y * a.y % prime
    let s := 4 * a.x * yy % prime
    let m := 3 * a.x * a.x % prime
    let x := sub (m * m % prime) (2 * s % prime)
    ⟨x, sub (m * sub s x % prime) (8 * yy * yy % prime), 2 * a.y * a.z % prime⟩

def add (a b : Point) : Point :=
  if a.z = 0 then b
  else if b.z = 0 then a
  else
    let za := a.z * a.z % prime
    let zb := b.z * b.z % prime
    let u := a.x * zb % prime
    let v := b.x * za % prime
    let s := a.y * zb * b.z % prime
    let t := b.y * za * a.z % prime
    if u = v then
      if s = t then a.double else infinity
    else
      let h := sub v u
      let r := sub t s
      let hh := h * h % prime
      let hhh := h * hh % prime
      let w := u * hh % prime
      let x := sub (sub (r * r % prime) hhh) (2 * w % prime)
      ⟨x, sub (r * sub w x % prime) (s * hhh % prime), a.z * b.z * h % prime⟩

def neg (a : Point) : Point := ⟨a.x, (prime - a.y) % prime, a.z⟩

def mul (k : Nat) (a : Point) : Point :=
  (bits k).foldl (fun acc bit => let d := acc.double; if bit then d.add a else d) infinity

/-- Both coordinates, which a point at infinity lacks. -/
def toAffine? (a : Point) : Option (Nat × Nat) :=
  if a.z = 0 then none
  else
    let i := invMod prime a.z
    let ii := i * i % prime
    some (a.x * ii % prime, a.y * ii * i % prime)

def ofX? (x : Nat) (odd : Bool) : Option Point :=
  if prime ≤ x then none
  else
    let c := (x * x * x + 7) % prime
    let y := powMod prime c ((prime + 1) / 4)
    if y * y % prime ≠ c then none
    else if (y % 2 == 1) == odd then some ⟨x, y, 1⟩
    else some ⟨x, (prime - y) % prime, 1⟩

end Point

end HardwareSigner.Secp256k1
