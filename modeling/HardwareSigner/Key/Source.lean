import HardwareSigner.Curve.System
import HardwareSigner.Hash.Hmac
import HardwareSigner.Path

/-!
Keys by derivation path: the BIP32 tree over a seed, and sources of keys that a device asks.
-/

namespace HardwareSigner

structure DerivedKey where
  secret : SecretKey
  chainCode : Block 32
  deriving DecidableEq

/-- Where a device gets keys from. Asking may change the source, and may find no key. -/
class KeySource (σ : Type) where
  derive : σ → List UInt32 → Option DerivedKey × σ

namespace KeyTree

/-- Levels below the root that have keys. -/
def maxDepth : Nat := 255

def split (h : Block 64) : Nat × Block 32 := ((h.slice 0 32).toNatBE, h.slice 32 32)

def master (seed : Block 64) : Option DerivedKey := do
  let (k, chainCode) := split (Hmac.sign (Hmac.ofBytes (Bytes.ofText "Bitcoin seed")) seed.bytes)
  let secret ← SecretKey.ofNat? k
  pure ⟨secret, chainCode⟩

/-- What a child is hashed from: a hardened one from the secret, another from the public key. -/
def childInput (k : SecretKey) (number : UInt32) : Bytes :=
  (if DerivationPath.isHardened number then 0 :: k.bytes.bytes
    else (Secp256k1.compressed k.scalar).bytes) ++ Bytes.ofUInt32BE number

def child (parent : DerivedKey) (number : UInt32) : Option DerivedKey := do
  let (k, chainCode) :=
    split (Hmac.sign (Hmac.ofBytes parent.chainCode.bytes) (childInput parent.secret number))
  let tweak ← SecretKey.ofNat? k
  let secret ← SecretKey.ofNat? ((parent.secret.scalar + tweak.scalar) % Secp256k1.order)
  pure ⟨secret, chainCode⟩

def derive (seed : Block 64) (path : List UInt32) : Option DerivedKey := do
  let root ← master seed
  if maxDepth < path.length then none else path.foldlM child root

end KeyTree

structure Seed where
  bytes : Block 64
  deriving DecidableEq

instance : KeySource Seed where
  derive s path := (KeyTree.derive s.bytes path, s)

/-- A source that may run dry: after `left` keys, if that is set, it finds none. -/
structure Rationed (σ : Type) where
  source : σ
  left : Option Nat

instance {σ : Type} [KeySource σ] : KeySource (Rationed σ) where
  derive s path :=
    match s.left with
    | some 0 => (none, s)
    | some (n + 1) =>
      let (k, source) := KeySource.derive s.source path
      (k, ⟨source, some n⟩)
    | none =>
      let (k, source) := KeySource.derive s.source path
      (k, ⟨source, none⟩)

end HardwareSigner
