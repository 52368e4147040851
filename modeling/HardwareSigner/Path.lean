import HardwareSigner.Wire
import HardwareSigner.Text.Decimal

/-!
Derivation paths: a list of at most ten child numbers, their wire form (depth, then four bytes
each) and their text form `m/44'/0`, in which a mark after a number sets its top bit.
-/

namespace HardwareSigner

/-- Set in the number of a hardened child. -/
def hardened : UInt32 := 0x80000000

/-- The branch for multi-account wallets, `44'`. -/
def purpose : UInt32 := hardened ||| 44

/-- The branch for this coin, `111111'`. -/
def coinType : UInt32 := hardened ||| 111111

def defaultAccount : UInt32 := hardened

def receiveAddress : UInt8 := 0
def changeAddress : UInt8 := 1

inductive PathError where
  | missingRoot
  | invalidElement
  | tooDeep
  deriving DecidableEq, Repr

def PathError.name : PathError → String
  | .missingRoot => "MissingRoot"
  | .invalidElement => "InvalidElement"
  | .tooDeep => "TooDeep"

structure DerivationPath where
  elements : List UInt32
  depth_le : elements.length ≤ 10
  deriving DecidableEq

namespace DerivationPath

def maxDepth : Nat := 10

def depth (p : DerivationPath) : Nat := p.elements.length

def ofElements (es : List UInt32) : Except PathError DerivationPath :=
  if h : es.length ≤ 10 then .ok ⟨es, h⟩ else .error .tooDeep

/-- The path of an address: account, kind of address and index under the coin's branch. -/
def address (account : UInt32) (addressType : UInt8) (index : UInt32) : DerivationPath :=
  ⟨[purpose, coinType, account ||| hardened, addressType.toUInt32, index], by simp⟩

def isHardened (e : UInt32) : Bool := e &&& hardened != 0

/-- One step of a path in text: decimal digits, after which an apostrophe marks a hardened one. -/
def elementText (e : UInt32) : List Char :=
  if isHardened e then Decimal.digits (e ^^^ hardened).toNat ++ ['\x27']
  else Decimal.digits e.toNat

def text (p : DerivationPath) : List Char :=
  'm' :: p.elements.flatMap fun e => '/' :: elementText e

/-- A 32-bit number in text: a plus sign or none, then one digit or more. -/
def number? (cs : List Char) : Option UInt32 :=
  let digits := if cs.head? = some '+' then cs.tail else cs
  if digits.isEmpty || !digits.all Char.isDigit || UInt32.size ≤ Decimal.value digits then none
  else some (UInt32.ofNat (Decimal.value digits))

def stripMark (cs : List Char) : List Char × Bool :=
  match cs.getLast? with
  | some '\x27' => (cs.dropLast, true)
  | some 'h' => (cs.dropLast, true)
  | _ => (cs, false)

def element? (cs : List Char) : Option UInt32 :=
  let (digits, marked) := stripMark cs
  match number? digits with
  | none => none
  | some n => if !marked then some n else if isHardened n then none else some (n ||| hardened)

/-- Reads steps after the ones read so far; the first fault in the text decides. -/
def parseElements (read : List UInt32) : List (List Char) → Except PathError DerivationPath
  | [] => ofElements read
  | cs :: rest =>
    match element? cs with
    | none => .error .invalidElement
    | some e => if read.length < maxDepth then parseElements (read ++ [e]) rest else .error .tooDeep

def splitSlash : List Char → List (List Char)
  | [] => [[]]
  | c :: cs =>
    match c, splitSlash cs with
    | '/', parts => [] :: parts
    | c, part :: parts => (c :: part) :: parts
    | c, [] => [[c]]

def parse (cs : List Char) : Except PathError DerivationPath :=
  match splitSlash cs with
  | ['m'] :: parts => parseElements [] parts
  | _ => .error .missingRoot

def layout (p : DerivationPath) : Bytes :=
  UInt8.ofNat p.depth :: p.elements.flatMap Bytes.ofUInt32BE

/-- The depth is judged before the bytes behind it are counted. -/
def read : Reader DerivationPath := do
  let depth ← Reader.byte
  if depth.toNat > maxDepth then Reader.refuse .invalidEncoding
  let es ← Reader.uint32.times depth.toNat
  if h : es.length ≤ 10 then pure ⟨es, h⟩ else Reader.refuse .invalidEncoding

instance : Record DerivationPath where
  encode p := .ok p.layout
  read := read

end DerivationPath

end HardwareSigner
