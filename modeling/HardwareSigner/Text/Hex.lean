import HardwareSigner.Bytes

/-!
Bytes as pairs of hexadecimal digits, written in lower case and read in either.
-/

namespace HardwareSigner.Hex

def digits : List Char :=
  ['0', '1', '2', '3', '4', '5', '6', '7', '8', '9', 'a', 'b', 'c', 'd', 'e', 'f']

def digit (n : Nat) : Char := digits.getD n '0'

def encodeChars (b : Bytes) : List Char :=
  b.flatMap fun x => [digit (x.toNat / 16), digit (x.toNat % 16)]

def encode (b : Bytes) : String := String.ofList (encodeChars b)

/-- The value of a digit in either case. -/
def value? (c : Char) : Option Nat := digits.idxOf? c.toLower

/-- Every two digits are a byte; there is no byte for one digit. -/
def decode? : List Char → Option Bytes
  | [] => some []
  | [_] => none
  | a :: b :: rest => do
    let hi ← value? a
    let lo ← value? b
    let bs ← decode? rest
    pure (UInt8.ofNat (16 * hi + lo) :: bs)

end HardwareSigner.Hex
