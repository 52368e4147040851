import HardwareSigner.Code
import HardwareSigner.Curve.Schnorr
import HardwareSigner.Curve.Ecdsa

/-!
What signing and checking need of a curve: the public key of a secret, signatures under it, and
checks for both schemes. Devices and wallets are stated over any such system.
-/

namespace HardwareSigner

/-- A scalar that has a public key: not zero and below the order of the curve. -/
structure SecretKey where
  scalar : Nat
  pos : 0 < scalar
  lt : scalar < Secp256k1.order
  deriving DecidableEq

namespace SecretKey

def ofNat? (k : Nat) : Option SecretKey :=
  if h : 0 < k ∧ k < Secp256k1.order then some ⟨k, h.1, h.2⟩ else none

def bytes (k : SecretKey) : Block 32 := Block.ofNatBE 32 k.scalar

end SecretKey

structure SignatureSystem where
  /-- Format byte and both coordinates. -/
  publicKey : SecretKey → Block 65
  sign : SecretKey → Block 32 → Block 64
  verifySchnorr : Block 32 → Bytes → Block 32 → Bool
  verifyEcdsa : Block 33 → Bytes → Block 32 → Bool

namespace SignatureSystem

variable (sys : SignatureSystem)

def xOnly (k : SecretKey) : Block 32 := (sys.publicKey k).xOnly

def parity (k : SecretKey) : UInt8 := (sys.publicKey k).bytes.getLast?.getD 0 &&& 1

/-- Checks a signature by a compressed key; the Schnorr scheme looks at its first coordinate. -/
def verify (scheme : SignatureScheme) (key : Block 33) (signature : Bytes) (digest : Block 32) :
    Bool :=
  match scheme with
  | .schnorr => sys.verifySchnorr key.xOnly signature digest
  | .ecdsa => sys.verifyEcdsa key signature digest

end SignatureSystem

namespace Secp256k1

def coordinates (k : Nat) : Nat × Nat := (Point.generator.mul k).toAffine?.getD (0, 0)

def uncompressed (k : Nat) : Block 65 :=
  let (x, y) := coordinates k
  ⟨0x04 :: (Bytes.ofNatBE 32 x ++ Bytes.ofNatBE 32 y), by simp⟩

def compressed (k : Nat) : Block 33 :=
  let (x, y) := coordinates k
  ⟨(if y % 2 = 1 then 0x03 else 0x02) :: Bytes.ofNatBE 32 x, by simp⟩

/-- The system in use: BIP340 signatures, and ECDSA for checking alone. -/
def system : SignatureSystem where
  publicKey k := uncompressed k.scalar
  sign k digest := (Schnorr.sign k.scalar digest).getD (Block.zero 64)
  verifySchnorr := Schnorr.verify
  verifyEcdsa := Ecdsa.verify

end Secp256k1

end HardwareSigner
