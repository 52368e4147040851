import HardwareSigner.Client.Program

/-!
A link with somebody on the line: frames are written down as they pass, and answers are changed
by their number before they are delivered.
-/

namespace HardwareSigner

/-- A change to an answer. Places beyond its end are left alone. -/
inductive Edit where
  | xor (offset : Nat) (value : UInt8)
  | set (offset : Nat) (value : UInt8)
  | truncate (length : Nat)
  | insert (offset : Nat) (bytes : Bytes)
  | replace (bytes : Bytes)
  /-- Deliver what an earlier answer was delivered as. -/
  | replay (number : Nat)
  deriving DecidableEq

def Edit.apply (delivered : List Bytes) (raw : Bytes) : Edit → Bytes
  | xor offset value => raw.modify offset (· ^^^ value)
  | set offset value => raw.set offset value
  | truncate length => raw.take length
  | insert offset bytes => raw.take offset ++ bytes ++ raw.drop offset
  | replace bytes => bytes
  | replay number => delivered[number]?.getD raw

structure Wiretap (τ : Type) where
  link : τ
  /-- Changes with the number of the answer that each is for. -/
  edits : List (Nat × Edit)
  sent : List Bytes
  delivered : List Bytes

namespace Wiretap

variable {τ : Type}

def ofLink (link : τ) (edits : List (Nat × Edit)) : Wiretap τ := ⟨link, edits, [], []⟩

/-- The answer that is next to be delivered, changed in the order of the list. -/
def edited (w : Wiretap τ) (raw : Bytes) : Bytes :=
  (w.edits.filter (·.1 = w.delivered.length)).foldl (fun b e => e.2.apply w.delivered b) raw

instance [Transport τ] : Transport (Wiretap τ) where
  submit w apdu :=
    let (r, link) := Transport.submit w.link apdu
    (r, { w with link, sent := w.sent ++ [apdu] })
  receive w :=
    match Transport.receive w.link with
    | (.answer raw, link) =>
      let raw := w.edited raw
      (.answer raw, { w with link, delivered := w.delivered ++ [raw] })
    | (r, link) => (r, { w with link })

end Wiretap

end HardwareSigner
