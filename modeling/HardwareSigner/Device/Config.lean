import HardwareSigner.Record.AppInfo

/-!
What a device is set up with: its name and version, the longest message it shows, and the order
in which it hands out signatures.
-/

namespace HardwareSigner

/-- The order of signatures in relation to that of inputs. -/
inductive SignatureOrder where
  | declared
  | reversed
  deriving DecidableEq, Repr

def SignatureOrder.name : SignatureOrder → String
  | .declared => "Declared"
  | .reversed => "Reversed"

structure DeviceConfig where
  name : String := "Kaspa"
  version : AppVersion := ⟨1, 1, 0⟩
  /-- Bytes of the longest message the device shows. -/
  messageLimit : Nat := 200
  order : SignatureOrder := .declared
  deriving DecidableEq

end HardwareSigner
