/-!
Numbers in decimal digits.
-/

namespace HardwareSigner.Decimal

def value (cs : List Char) : Nat :=
  cs.foldl (fun acc c => acc * 10 + (c.toNat - '0'.toNat)) 0

def digits (n : Nat) : List Char := Nat.toDigits 10 n

end HardwareSigner.Decimal
