import HardwareSigner.Curve.Secp256k1

/-!
ECDSA verification: signatures are strict DER pairs of scalars with the second one in the lower
half, keys are compressed.
-/

namespace HardwareSigner.Ecdsa

open Secp256k1

/-- A length of at most 127 in its one-byte form; longer pairs hold no scalars. -/
def readLength : Bytes → Option (Nat × Bytes)
  | [] => none
  | n :: rest => if n < 0x80 && n.toNat ≤ rest.length then some (n.toNat, rest) else none

/-- Not empty, not negative, and no zero byte that is not needed for the sign. -/
def isMinimal : Bytes → Bool
  | [] => false
  | [x] => x < 0x80
  | x :: y :: _ => x < 0x80 && (x != 0 || 0x80 ≤ y)

def readInteger : Bytes → Option (Nat × Bytes)
  | 0x02 :: rest =>
    match readLength rest with
    | none => none
    | some (n, rest) =>
      if isMinimal (rest.take n) then some (Bytes.toNatBE (rest.take n), rest.drop n) else none
  | _ => none

def readSignature : Bytes → Option (Nat × Nat)
  | 0x30 :: rest =>
    match readLength rest with
    | none => none
    | some (n, rest) =>
      if n ≠ rest.length then none
      else
        match readInteger rest with
        | none => none
        | some (r, rest) =>
          match readInteger rest with
          | some (s, []) => some (r, s)
          | _ => none
  | _ => none

def readKey (key : Block 33) : Option Point :=
  match key.bytes with
  | 0x02 :: x => Point.ofX? (Bytes.toNatBE x) false
  | 0x03 :: x => Point.ofX? (Bytes.toNatBE x) true
  | _ => none

def verify (key : Block 33) (signature : Bytes) (digest : Block 32) : Bool :=
  match readKey key, readSignature signature with
  | some p, some (r, s) =>
    if r = 0 || order ≤ r || s = 0 || order / 2 < s then false
    else
      let w := invMod order s
      let u := digest.toNatBE * w % order
      let v := r * w % order
      match ((Point.generator.mul u).add (p.mul v)).toAffine? with
      | none => false
      | some (x, _) => x % order == r
  | _, _ => false

end HardwareSigner.Ecdsa
