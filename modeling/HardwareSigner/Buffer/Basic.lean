import HardwareSigner.Wire

/-!
Byte strings as a codec handles them in memory, where a place is reached by its number. One that is
not there is a fault, which nothing that was read or written can excuse: it is no error that a
caller is told of.
-/

namespace HardwareSigner.Buffer

/-- What was reached for out of range. -/
inductive Fault where
  | index
  | slice
  /-- Two places that do not have the same number of bytes. -/
  | copy
  /-- One more value than a container of a fixed size takes. -/
  | capacity
  | subtraction
  deriving DecidableEq, Repr

inductive Outcome (ε α : Type) where
  | ok (a : α)
  | error (e : ε)
  | fault (f : Fault)
  deriving DecidableEq

namespace Outcome

variable {ε δ α β : Type}

protected def bind (x : Outcome ε α) (f : α → Outcome ε β) : Outcome ε β :=
  match x with
  | ok a => f a
  | error e => error e
  | fault f => fault f

instance : Monad (Outcome ε) where
  pure := ok
  bind := Outcome.bind

/-- The end of a computation that does not reach out of range. -/
def of : Except ε α → Outcome ε α
  | .ok a => ok a
  | .error e => error e

def mapError (g : ε → δ) : Outcome ε α → Outcome δ α
  | ok a => ok a
  | error e => error (g e)
  | fault f => fault f

end Outcome

variable {ε α : Type}

/-! ### Places -/

def get (b : List α) (i : Nat) : Outcome ε α :=
  match b[i]? with
  | some x => .ok x
  | none => .fault .index

def upTo (b : Bytes) (i : Nat) : Outcome ε Bytes :=
  if i ≤ b.length then .ok (b.take i) else .fault .slice

def onFrom (b : Bytes) (i : Nat) : Outcome ε Bytes :=
  if i ≤ b.length then .ok (b.drop i) else .fault .slice

def between (b : Bytes) (i j : Nat) : Outcome ε Bytes :=
  if i ≤ j ∧ j ≤ b.length then .ok ((b.take j).drop i) else .fault .slice

def word (n : Nat) (b : Bytes) : Outcome ε Nat :=
  if n ≤ b.length then .ok (Bytes.toNatBE (b.take n)) else .fault .slice

/-- A copy in a block, which has to be filled. -/
def block (n : Nat) (b : Bytes) : Outcome ε (Block n) :=
  if h : b.length = n then .ok ⟨b, h⟩ else .fault .copy

def minus (m n : Nat) : Outcome ε Nat := if n ≤ m then .ok (m - n) else .fault .subtraction

/-! ### Buffers -/

/-- Writes into a buffer, which keeps its length. -/
abbrev Writer (α : Type) := StateT Bytes (Outcome WireError) α

def refuse (e : WireError) : Writer α := fun _ => .error e

def room : Writer Nat := fun buff => .ok (buff.length, buff)

def put (i : Nat) (x : UInt8) : Writer Unit := fun buff =>
  if i < buff.length then .ok ((), buff.set i x) else .fault .index

/-- Copies bytes over the `n` bytes from a place on. -/
def copy (i n : Nat) (d : Bytes) : Writer Unit := fun buff =>
  if i ≤ buff.length ∧ n ≤ buff.length - i then
    if d.length = n then .ok ((), buff.take i ++ d ++ buff.drop (i + n)) else .fault .copy
  else .fault .slice

def within (i : Nat) (w : Writer α) : Writer α := fun buff =>
  if i ≤ buff.length then
    match w (buff.drop i) with
    | .ok (a, tail) => .ok (a, buff.take i ++ tail)
    | .error e => .error e
    | .fault f => .fault f
  else .fault .slice

/-- How values get into buffers and out of them: the bytes that are counted for one, how they are
written over the front of a buffer, and what stands at the front of one and how many bytes that is.
-/
class Codec (α : Type) where
  size : α → Except WireError Nat
  write : α → Writer Nat
  parse : Bytes → Outcome WireError (α × Nat)

def written [Codec α] (r : α) : Outcome WireError Bytes := do
  let n ← Outcome.of (Codec.size r)
  let (n, buff) ← Codec.write r (List.replicate n 0)
  pure (buff.take n)

end HardwareSigner.Buffer
