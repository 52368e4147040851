import HardwareSigner.Client.Signatures
import HardwareSigner.Json.Writer

/-!
Signatures as a JSON file that people may read: every member on a line of its own, two blanks
deeper than what it is in.
-/

namespace HardwareSigner.SignatureFile

def indented (depth : Nat) (cs : List Char) : List Char :=
  '\n' :: (List.replicate (2 * depth) ' ' ++ cs)

/-- Items between brackets, each on its own line. -/
def block (start close : Char) (depth : Nat) (as : List (List Char)) : List Char :=
  if as = [] then [start, close]
  else start :: (Json.commas (as.map (indented (depth + 1))) ++ indented depth [close])

def member (name : String) (value : List Char) : List Char :=
  Json.quoted name.toList ++ ':' :: ' ' :: value

def signature (s : InputSignature) : List Char := block '\x7b' '\x7d' 1
  [member "input_index" (Json.number s.inputIndex.toNat),
    member "scheme" (Json.quoted s.scheme.name.toList),
    member "signature" (Json.hexText s.signature),
    member "sighash" (Json.hexText s.sighash.bytes)]

def text (signatures : List InputSignature) : List Char :=
  block '[' ']' 0 (signatures.map signature)

end HardwareSigner.SignatureFile
