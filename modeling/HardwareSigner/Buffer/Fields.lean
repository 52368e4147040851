import HardwareSigner.Buffer.Basic

/-!
Fields of records: of fixed width, and behind a length of one byte. Each one is written into what
is left of a buffer and taken off what is left of one, if that is long enough.
-/

namespace HardwareSigner.Buffer

variable {ε α : Type}

/-- Writes a field at a place, and tells the place behind it. -/
def putAt (i : Nat) (field : Writer Nat) : Writer Nat := do
  let n ← within i field
  pure (i + n)

/-- Takes a field at a place, and tells the place behind it. -/
def parseAt (b : Bytes) (i : Nat) (field : Bytes → Outcome ε (α × Nat)) : Outcome ε (α × Nat) := do
  let (a, n) ← field (← onFrom b i)
  pure (a, i + n)

def putByte (x : UInt8) : Writer Nat := do
  if (← room) < 1 then refuse .invalidLength
  put 0 x
  pure 1

def parseByte (b : Bytes) : Outcome WireError (UInt8 × Nat) := do
  if b.length < 1 then Outcome.error .invalidLength
  pure (← get b 0, 1)

def putFixed (n : Nat) (d : Bytes) : Writer Nat := do
  if (← room) < n then refuse .invalidLength
  copy 0 n d
  pure n

def parseWord (n : Nat) (b : Bytes) : Outcome WireError (Nat × Nat) := do
  if b.length < n then Outcome.error .invalidLength
  pure (← word n (← upTo b n), n)

def parseBlock (n : Nat) (b : Bytes) : Outcome WireError (Block n × Nat) := do
  if b.length < n then Outcome.error .invalidLength
  pure (← block n (← upTo b n), n)

def putPrefixed (d : Bytes) : Writer Nat := do
  if 255 < d.length || (← room) < d.length + 1 then refuse .invalidLength
  put 0 (UInt8.ofNat d.length)
  copy 1 d.length d
  pure (d.length + 1)

def parsePrefixed (b : Bytes) : Outcome WireError (Bytes × Nat) := do
  let n ←
    match b.head? with
    | some x => Outcome.ok x.toNat
    | none => Outcome.error .invalidLength
  if b.length < n + 1 then Outcome.error .invalidLength
  pure (← upTo (← onFrom b 1) n, n + 1)

def consumed (n : Nat) (b : Bytes) : Outcome WireError Unit :=
  if n = b.length then .ok () else .error .invalidLength

def whole [Codec α] (b : Bytes) : Outcome WireError α := do
  let (r, n) ← Codec.parse b
  consumed n b
  pure r

end HardwareSigner.Buffer
