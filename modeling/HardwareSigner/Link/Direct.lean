import HardwareSigner.Client.Program
import HardwareSigner.Device.Simulated

/-!
A simulated device in the same process as the wallet: frames always arrive, and a wait with no
answer at hand is a wait for the operator.
-/

namespace HardwareSigner

instance {σ : Type} [KeySource σ] : Transport (SimDevice σ) where
  submit d apdu := (.accepted, d.submit apdu)
  receive d :=
    match d.receive with
    | (some raw, d) => (.answer raw, d)
    | (none, d) => (.silent, d)

end HardwareSigner
