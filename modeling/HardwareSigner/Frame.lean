import HardwareSigner.Wire
import HardwareSigner.Code
import HardwareSigner.Status

/-!
Command frames (class, instruction, two parameters, length, payload) and the answers to them
(data, then the status word).
-/

namespace HardwareSigner

structure Frame where
  cla : UInt8
  ins : UInt8
  p1 : UInt8
  p2 : UInt8
  data : Bytes
  length_data : data.length ≤ maxPayload
  deriving DecidableEq

namespace Frame

def headerLength : Nat := 5

def maxLength : Nat := headerLength + maxPayload

def ofParts (cla ins p1 p2 : UInt8) (data : Bytes) : Except WireError Frame :=
  if h : data.length ≤ maxPayload then .ok ⟨cla, ins, p1, p2, data, h⟩ else .error .invalidLength

variable {α : Type} [Request α]

def ofRequest (r : α) (p1 p2 : UInt8) : Except WireError Frame := do
  let n ← Record.encodedLength r
  if maxPayload < n then throw .invalidLength
  let data ← Record.encode r
  ofParts (Request.cla α) (Request.ins α) p1 p2 data

def ofStep (r : α) (phase : Phase) (cont : Continuation) : Except WireError Frame :=
  ofRequest r phase.code cont.code

def phase? (f : Frame) : Option Phase := Phase.ofCode? f.p1

def continuation? (f : Frame) : Option Continuation := Continuation.ofCode? f.p2

def isLast (f : Frame) : Bool := f.p2 == Continuation.last.code

def layout (f : Frame) : Bytes :=
  f.cla :: f.ins :: f.p1 :: f.p2 :: UInt8.ofNat f.data.length :: f.data

/-- The length byte has to count exactly what follows it. -/
def read : Reader Frame := do
  let cla ← Reader.byte
  let ins ← Reader.byte
  let p1 ← Reader.byte
  let p2 ← Reader.byte
  let data ← Reader.lengthPrefixed
  Reader.ending
  match ofParts cla ins p1 p2 data with
  | .ok f => pure f
  | .error e => Reader.refuse e

instance : Record Frame where
  encode f := .ok f.layout
  read := read

end Frame

/-- What a device answers: data and a status word, known or not. -/
structure Answer where
  data : Bytes
  status : UInt16
  deriving DecidableEq

namespace Answer

def statusWord? (a : Answer) : Option StatusWord := StatusWord.ofCode? a.status

def isOk (a : Answer) : Bool := a.status == StatusWord.ok.code

def layout (a : Answer) : Bytes := a.data ++ Bytes.ofUInt16BE a.status

/-- The last two bytes are the status word. -/
def read : Reader Answer := fun b =>
  if b.length < 2 then .error .invalidLength
  else
    let n := b.length - 2
    .ok (⟨b.take n, UInt16.ofNat (Bytes.toNatBE (b.drop n))⟩, [])

instance : Record Answer where
  encode a := .ok a.layout
  read := read

end Answer

end HardwareSigner
