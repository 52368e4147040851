import HardwareSigner.Path
import HardwareSigner.Code

/-!
Records for public keys: a request by derivation path, and the key with its chain code.
-/

namespace HardwareSigner

structure PublicKeyRequest where
  path : DerivationPath
  /-- Show the key on the device and have it confirmed; carried in the first parameter. -/
  display : Bool
  deriving DecidableEq

namespace PublicKeyRequest

def p1 (r : PublicKeyRequest) : UInt8 := if r.display then 1 else 0

/-- The payload is the path alone and nothing after it. -/
def read : Reader PublicKeyRequest := do
  let path ← DerivationPath.read
  Reader.ending
  pure ⟨path, false⟩

instance : Request PublicKeyRequest where
  encode r := .ok r.path.layout
  read := read
  cla := appClass
  ins := Instruction.getPublicKey.code

end PublicKeyRequest

/-- A key as the device tells it: format byte, both coordinates, and the chain code. -/
structure PublicKey where
  key : Block 65
  chainCode : Block 32
  deriving DecidableEq

namespace PublicKey

def uncompressed : UInt8 := 0x04

def layoutLength : Nat := 99

def xOnly (k : PublicKey) : Block 32 := k.key.xOnly

/-- The first coordinate behind a byte that tells whether the second one is odd. -/
def compressed (k : PublicKey) : Block 33 :=
  ⟨(0x02 ||| (k.key.bytes.getLast?.getD 0 &&& 1)) :: k.xOnly.bytes, by simp [k.xOnly.length_bytes]⟩

def layout (k : PublicKey) : Bytes := 65 :: (k.key.bytes ++ 32 :: k.chainCode.bytes)

/-- The length is judged before the bytes. -/
def read : Reader PublicKey := fun b =>
  if b.length ≠ layoutLength then .error .invalidLength
  else readFields b
where
  readFields : Reader PublicKey := do
    let n ← Reader.byte
    let key ← Reader.block 65
    let m ← Reader.byte
    let chainCode ← Reader.block 32
    if n != 65 || key.bytes.head? != some uncompressed || m != 32 then
      Reader.refuse .invalidEncoding
    pure ⟨key, chainCode⟩

instance : Record PublicKey where
  encode k := .ok k.layout
  read := read

end PublicKey

end HardwareSigner
