import HardwareSigner.Text.Decimal
import HardwareSigner.Text.Hex

/-!
JSON text without blanks, of numbers, of strings that need no escapes, of lists and of records.
-/

namespace HardwareSigner.Json

def number (n : Nat) : List Char := Decimal.digits n

/-- A text between quotes; it holds no quote, backslash or control character. -/
def quoted (cs : List Char) : List Char := '"' :: (cs ++ ['"'])

def hexText (b : Bytes) : List Char := quoted (Hex.encodeChars b)

def commas : List (List Char) → List Char
  | [] => []
  | [a] => a
  | a :: rest => a ++ ',' :: commas rest

def items (as : List (List Char)) : List Char := '[' :: (commas as ++ [']'])

def members (ms : List (String × List Char)) : List Char :=
  '\x7b' :: (commas (ms.map fun m => quoted m.1.toList ++ ':' :: m.2) ++ ['\x7d'])

def null : List Char := ['n', 'u', 'l', 'l']

end HardwareSigner.Json
