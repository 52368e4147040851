import HardwareSigner.Text.Decimal
import HardwareSigner.Text.Hex

/-!
JSON values read off the front of a text, each where its kind is known beforehand. Blanks may
stand in front of every mark and value. A text is refused as soon as it cannot be what it
should be.
-/

namespace HardwareSigner.Json

/-- Takes a value off the front of a text. -/
abbrev TextReader (α : Type) := StateT (List Char) Option α

def isBlank (c : Char) : Bool := c = ' ' || c = '\t' || c = '\n' || c = '\r'

def blanks : TextReader Unit := modify fun cs => cs.dropWhile isBlank

def next : TextReader Char := fun cs =>
  match cs.dropWhile isBlank with
  | [] => none
  | c :: rest => some (c, rest)

def peek : TextReader Char := fun cs => do
  let c ← (cs.dropWhile isBlank).head?
  pure (c, cs)

def mark (c : Char) : TextReader Unit := do
  let d ← next
  if d ≠ c then failure

/-- A number in decimal digits, with no zero in front of others. -/
def natural : TextReader Nat := fun cs =>
  let cs := cs.dropWhile isBlank
  let ds := cs.takeWhile Char.isDigit
  if ds = [] ∨ ds.head? = some '0' ∧ ds ≠ ['0'] then none
  else some (Decimal.value ds, cs.drop ds.length)

/-- A number below a bound; what makes a fraction or a power of it is no part of it. -/
def below (bound : Nat) : TextReader Nat := do
  let n ← natural
  if n < bound then pure n else failure

def uint8 : TextReader UInt8 := UInt8.ofNat <$> below UInt8.size
def uint16 : TextReader UInt16 := UInt16.ofNat <$> below UInt16.size
def uint32 : TextReader UInt32 := UInt32.ofNat <$> below UInt32.size
def uint64 : TextReader UInt64 := UInt64.ofNat <$> below UInt64.size

def codeUnit? (a b c d : Char) : Option Nat := do
  let a ← Hex.value? a
  let b ← Hex.value? b
  let c ← Hex.value? c
  let d ← Hex.value? d
  pure (((a * 16 + b) * 16 + c) * 16 + d)

def isHighSurrogate (n : Nat) : Bool := 0xd800 ≤ n && n < 0xdc00
def isLowSurrogate (n : Nat) : Bool := 0xdc00 ≤ n && n < 0xe000

def escaped? : Char → Option Char
  | '"' => some '"'
  | '\\' => some '\\'
  | '/' => some '/'
  | 'b' => some '\x08'
  | 'f' => some '\x0c'
  | 'n' => some '\n'
  | 'r' => some '\r'
  | 't' => some '\t'
  | _ => none

def push (c : Char) (r : Option (List Char × List Char)) : Option (List Char × List Char) :=
  r.map fun (cs, rest) => (c :: cs, rest)

/-- The text of a string up to its closing quote. Surrogates count only as a pair. -/
def stringBody : List Char → Option (List Char × List Char)
  | [] => none
  | '"' :: rest => some ([], rest)
  | '\\' :: 'u' :: a :: b :: c :: d :: rest =>
    match codeUnit? a b c d with
    | none => none
    | some n =>
      if isLowSurrogate n then none
      else if isHighSurrogate n then
        match rest with
        | '\\' :: 'u' :: e :: f :: g :: h :: rest =>
          match codeUnit? e f g h with
          | none => none
          | some m =>
            if isLowSurrogate m then
              push (Char.ofNat (0x10000 + (n - 0xd800) * 0x400 + (m - 0xdc00))) (stringBody rest)
            else none
        | _ => none
      else push (Char.ofNat n) (stringBody rest)
  | '\\' :: c :: rest =>
    match escaped? c with
    | none => none
    | some e => push e (stringBody rest)
  | c :: rest => if c < ' ' then none else push c (stringBody rest)

def string : TextReader (List Char) := do
  mark '"'
  fun cs => stringBody cs

def hexString : TextReader Bytes := do
  let cs ← string
  Hex.decode? cs

def hexBlock (n : Nat) : TextReader (Block n) := do
  let b ← hexString
  Block.ofBytes? n b

def word (w : List Char) : TextReader Unit := fun cs =>
  let cs := cs.dropWhile isBlank
  if w.isPrefixOf cs then some ((), cs.drop w.length) else none

/-- A value that may be missing, in which case it is written as the word for that. -/
def nullable {α : Type} (r : TextReader α) : TextReader (Option α) := do
  if (← peek) = 'n' then
    word ['n', 'u', 'l', 'l']
    pure none
  else some <$> r

/-- Steps with commas between them, up to a closing mark; `fuel` bounds their number. -/
def separated {σ : Type} (close : Char) (step : σ → TextReader σ) : Nat → σ → TextReader σ
  | 0, _ => failure
  | fuel + 1, s => do
    let s ← step s
    let c ← next
    if c = close then pure s
    else if c = ',' then separated close step fuel s
    else failure

/-- Steps between brackets, of which there may be none. Every step takes a character at least. -/
def bracketed {σ : Type} (start close : Char) (step : σ → TextReader σ) (s : σ) :
    TextReader σ := do
  mark start
  if (← peek) = close then
    mark close
    pure s
  else fun cs => separated close step cs.length s cs

def list {α : Type} (item : TextReader α) : TextReader (List α) :=
  bracketed '[' ']' (fun as => do pure (as ++ [← item])) []

def whole {α : Type} (r : TextReader α) (cs : List Char) : Option α :=
  match r cs with
  | some (a, rest) => if rest.all isBlank then some a else none
  | none => none

end HardwareSigner.Json
