import HardwareSigner.Text.Decimal
import HardwareSigner.Text.Hex

/-!
Internet addresses in text: four decimal bytes, or eight hexadecimal groups of which one run of
zeros may be left out and the last two may be written as four bytes.
-/

namespace HardwareSigner

inductive IpAddress where
  | v4 (a b c d : UInt8)
  | v6 (groups : Vector UInt16 8)
  deriving DecidableEq

namespace IpAddress

def localhost : IpAddress := v4 127 0 0 1

/-- Three digits at most, and no zero in front of others. -/
def byte? (cs : List Char) : Option UInt8 :=
  if cs = [] ∨ 3 < cs.length ∨ !cs.all Char.isDigit ∨ cs.head? = some '0' ∧ cs ≠ ['0'] ∨
      255 < Decimal.value cs then none
  else some (UInt8.ofNat (Decimal.value cs))

def bytes? (cs : List Char) : Option (UInt8 × UInt8 × UInt8 × UInt8) :=
  match cs.splitOn '.' with
  | [a, b, c, d] => do pure (← byte? a, ← byte? b, ← byte? c, ← byte? d)
  | _ => none

def group? (cs : List Char) : Option UInt16 :=
  if cs = [] ∨ 4 < cs.length then none
  else (UInt16.ofNat ·) <$> cs.foldlM (fun n c => do pure (n * 16 + (← Hex.value? c))) 0

/-- Four bytes in the place of the last two groups. -/
def lastGroups? (cs : List Char) : Option (List UInt16) :=
  match group? cs with
  | some g => some [g]
  | none => do
    let (a, b, c, d) ← bytes? cs
    pure [a.toUInt16 * 256 + b.toUInt16, c.toUInt16 * 256 + d.toUInt16]

def partGroups? : List (List Char) → Option (List UInt16)
  | [] => some []
  | [cs] => lastGroups? cs
  | cs :: rest => do pure ((← group? cs) :: (← partGroups? rest))

/-- Groups with colons between them; an empty text has none. -/
def groups? (cs : List Char) : Option (List UInt16) :=
  if cs = [] then some [] else partGroups? (cs.splitOn ':')

def splitGap : List Char → Option (List Char × List Char)
  | ':' :: ':' :: rest => some ([], rest)
  | c :: rest => (splitGap rest).map fun (before, after) => (c :: before, after)
  | [] => none

def ofGroups? (gs : List UInt16) : Option IpAddress :=
  if h : gs.length = 8 then some (v6 ⟨gs.toArray, by simpa using h⟩) else none

/-- The gap stands for one group of zeros at least. -/
def v6? (cs : List Char) : Option IpAddress :=
  match splitGap cs with
  | none => do
    let gs ← groups? cs
    ofGroups? gs
  | some (before, after) => do
    if before.contains '.' then none
    let a ← groups? before
    let b ← groups? after
    if a.length + b.length < 8 then
      ofGroups? (a ++ List.replicate (8 - a.length - b.length) 0 ++ b)
    else none

def parse (cs : List Char) : Option IpAddress :=
  match bytes? cs with
  | some (a, b, c, d) => some (v4 a b c d)
  | none => v6? cs

end IpAddress

end HardwareSigner
