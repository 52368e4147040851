import HardwareSigner.Bytes

/-!
Wire records: how a value becomes bytes and is read back from the front of a byte string.
Fields are of fixed width, most significant byte first, or carry a one-byte length.
-/

namespace HardwareSigner

inductive WireError where
  | invalidLength
  | invalidEncoding
  deriving DecidableEq, Repr

def WireError.name : WireError → String
  | .invalidLength => "InvalidLength"
  | .invalidEncoding => "InvalidEncoding"

/-- Takes a value off the front of a byte string. -/
abbrev Reader (α : Type) := StateT Bytes (Except WireError) α

namespace Reader

def byte : Reader UInt8 := fun
  | [] => .error .invalidLength
  | x :: rest => .ok (x, rest)

def take (n : Nat) : Reader Bytes := fun b =>
  if b.length < n then .error .invalidLength else .ok (b.take n, b.drop n)

def block (n : Nat) : Reader (Block n) := fun b =>
  if h : n ≤ b.length then .ok (⟨b.take n, by simp [h]⟩, b.drop n) else .error .invalidLength

def nat (n : Nat) : Reader Nat := Bytes.toNatBE <$> take n

def uint16 : Reader UInt16 := UInt16.ofNat <$> nat 2
def uint32 : Reader UInt32 := UInt32.ofNat <$> nat 4
def uint64 : Reader UInt64 := UInt64.ofNat <$> nat 8

def lengthPrefixed : Reader Bytes := do
  let n ← byte
  take n.toNat

def times {α : Type} (r : Reader α) : Nat → Reader (List α)
  | 0 => pure []
  | n + 1 => do
    let a ← r
    let as ← times r n
    pure (a :: as)

/-- Nothing may be left. -/
def ending : Reader Unit := fun b =>
  if b.isEmpty then .ok ((), b) else .error .invalidLength

def refuse {α : Type} (e : WireError) : Reader α := fun _ => .error e

def decode {α : Type} (r : Reader α) (b : Bytes) : Except WireError (α × Nat) :=
  match r b with
  | .ok (a, rest) => .ok (a, b.length - rest.length)
  | .error e => .error e

def decodeAll {α : Type} (r : Reader α) (b : Bytes) : Except WireError α :=
  match r b with
  | .ok (a, []) => .ok a
  | .ok (_, _ :: _) => .error .invalidLength
  | .error e => .error e

end Reader

/-- A field behind its one-byte length, which a longer field does not have. -/
def Bytes.lengthPrefixed (d : Bytes) : Except WireError Bytes :=
  if d.length ≤ 255 then .ok (UInt8.ofNat d.length :: d) else .error .invalidLength

class Record (α : Type) where
  encode : α → Except WireError Bytes
  /-- Bytes the wire form takes; room for it may be asked for before it is known to exist. -/
  encodedLength : α → Except WireError Nat := fun r => (encode r).map List.length
  read : Reader α

namespace Record

variable {α : Type} [Record α]

/-- The bytes written into a buffer with `room` bytes, which has to hold all of them. -/
def encodeInto (r : α) (room : Nat) : Except WireError Bytes := do
  let n ← encodedLength r
  if room < n then throw .invalidLength
  encode r

def decode (b : Bytes) : Except WireError (α × Nat) := Reader.decode read b

end Record

/-- A record that a command frame carries, with the class and instruction it goes under. -/
class Request (α : Type) extends Record α where
  cla : UInt8
  ins : UInt8

end HardwareSigner
