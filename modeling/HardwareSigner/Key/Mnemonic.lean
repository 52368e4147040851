import HardwareSigner.Hash.Hmac
import HardwareSigner.Hash.Sha256
import HardwareSigner.Key.Source
import HardwareSigner.Key.WordList
import HardwareSigner.Text.Blank

/-!
Mnemonic phrases: words of eleven bits each, the last of which are a checksum, and the seed a
phrase stands for.
-/

namespace HardwareSigner

inductive MnemonicError where
  | invalidWord
  | invalidCount (words : Nat)
  | invalidChecksum
  deriving DecidableEq, Repr

def MnemonicError.message : MnemonicError → String
  | .invalidWord => "invalid word in phrase"
  | .invalidCount n => "invalid number of words in phrase: " ++ n.repr
  | .invalidChecksum => "invalid checksum"

namespace Mnemonic

def wordList : List String := Text.words wordListText

def wordBits (words : List String) : Option (List Bool) := do
  let numbers ← words.mapM fun w => wordList.idxOf? w
  pure (numbers.flatMap fun n => (List.range 11).reverse.map n.testBit)

def numberOfBits (bs : List Bool) : Nat := bs.foldl (fun acc b => 2 * acc + b.toNat) 0

/-- Entropy and checksum of a phrase share its bits 32 to 1. -/
def checksumMatches (bs : List Bool) : Bool :=
  let n := bs.length / 33
  let entropy := Bytes.ofNatBE (4 * n) (numberOfBits (bs.take (32 * n)))
  let digest := (Sha256.hash entropy).toNatBE
  numberOfBits (bs.drop (32 * n)) == digest >>> (256 - n)

/-- The words of a phrase; an empty phrase is one empty word. -/
def words (phrase : String) : List String :=
  match Text.words phrase with
  | [] => [""]
  | ws => ws

/-- The words are judged first, then their number, then the checksum. -/
def check (phrase : String) : Except MnemonicError (List String) :=
  let ws := words phrase
  match wordBits ws with
  | none => .error .invalidWord
  | some bs =>
    if ws.length ∉ [12, 15, 18, 21, 24] then .error (.invalidCount ws.length)
    else if checksumMatches bs then .ok ws
    else .error .invalidChecksum

end Mnemonic

namespace Seed

def ofWords (ws : List String) (passphrase : String) : Seed :=
  let salt := Bytes.ofText ("mnemonic" ++ passphrase)
  let b := Hmac.derive (Bytes.ofText (" ".intercalate ws)) salt 2048
  ⟨(Block.ofBytes? 64 b).getD (Block.zero 64)⟩

def ofMnemonic (phrase passphrase : String) : Except MnemonicError Seed := do
  let ws ← Mnemonic.check phrase
  pure (ofWords ws passphrase)

def defaultMnemonic : String :=
  "glory promote mansion idle axis finger extra february uncover one trip resource lawn " ++
    "turtle enact monster seven myth punch hobby comfort wild raise skin"

def default : Seed := ofWords (Mnemonic.words defaultMnemonic) ""

end Seed

end HardwareSigner
