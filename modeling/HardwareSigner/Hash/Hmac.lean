import HardwareSigner.Hash.Sha512

/-!
HMAC over SHA-512, and the iterated key derivation over it that turns a phrase into a seed.
-/

namespace HardwareSigner.Hmac

structure Key where
  inner : Sha512.State
  outer : Sha512.State

/-- The key as a block; a longer one is hashed first. -/
def keyBlock (key : Bytes) : Bytes :=
  let k := if Sha512.blockLength < key.length then (Sha512.hash key).bytes else key
  k ++ List.replicate (Sha512.blockLength - k.length) 0

def ofBytes (key : Bytes) : Key :=
  let k := keyBlock key
  ⟨Sha512.compress Sha512.initial (k.map (· ^^^ 0x36)),
    Sha512.compress Sha512.initial (k.map (· ^^^ 0x5c))⟩

def sign (k : Key) (message : Bytes) : Block 64 :=
  Sha512.finish k.outer Sha512.blockLength
    (Sha512.finish k.inner Sha512.blockLength message).bytes

def iterate (k : Key) : Nat → Bytes → Bytes → Bytes
  | 0, _, sum => sum
  | n + 1, last, sum =>
    let next := (sign k last).bytes
    iterate k n next (List.zipWith (· ^^^ ·) sum next)

/-- The first 64 bytes derived from a password and a salt in `rounds` signatures. -/
def derive (password salt : Bytes) (rounds : Nat) : Bytes :=
  let k := ofBytes password
  let first := (sign k (salt ++ Bytes.ofNatBE 4 1)).bytes
  iterate k (rounds - 1) first first

end HardwareSigner.Hmac
