import HardwareSigner.Curve.Secp256k1
import HardwareSigner.Hash.Sha256

/-!
BIP340 signatures: 64 bytes, a first coordinate and a scalar, made without auxiliary data.
-/

namespace HardwareSigner.Schnorr

open Secp256k1

/-- The hash of a text stands twice before the data. -/
def taggedHash (tag : String) (data : Bytes) : Block 32 :=
  let t := (Sha256.hash (Bytes.ofText tag)).bytes
  Sha256.hash (t ++ t ++ data)

def challenge (r x : Bytes) (digest : Block 32) : Nat :=
  (taggedHash "BIP0340/challenge" (r ++ x ++ digest.bytes)).toNatBE % order

/-- Signs with a secret scalar; none only where a scalar meets the point at infinity. -/
def sign (secret : Nat) (digest : Block 32) : Option (Block 64) := do
  let (px, py) ← (Point.generator.mul secret).toAffine?
  let d := if py % 2 = 1 then order - secret else secret
  let x := Bytes.ofNatBE 32 px
  let mask := taggedHash "BIP0340/aux" (List.replicate 32 0)
  let t := List.zipWith (· ^^^ ·) (Bytes.ofNatBE 32 d) mask.bytes
  let nonce := (taggedHash "BIP0340/nonce" (t ++ x ++ digest.bytes)).toNatBE % order
  let (rx, ry) ← (Point.generator.mul nonce).toAffine?
  let k := if ry % 2 = 1 then order - nonce else nonce
  let r := Bytes.ofNatBE 32 rx
  let s := (k + challenge r x digest * d) % order
  Block.ofBytes? 64 (r ++ Bytes.ofNatBE 32 s)

/-- The signature point is the one that key, challenge and scalar give, with even coordinate. -/
def verify (key : Block 32) (signature : Bytes) (digest : Block 32) : Bool :=
  if signature.length ≠ 64 then false
  else
    let r := Bytes.toNatBE (signature.take 32)
    let s := Bytes.toNatBE (signature.drop 32)
    match Point.ofX? key.toNatBE false with
    | none => false
    | some p =>
      if prime ≤ r || order ≤ s then false
      else
        let e := challenge (signature.take 32) key.bytes digest
        match ((Point.generator.mul s).add ((p.mul e).neg)).toAffine? with
        | none => false
        | some (x, y) => y % 2 == 0 && x == r

end HardwareSigner.Schnorr
