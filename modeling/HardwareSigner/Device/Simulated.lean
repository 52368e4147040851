import HardwareSigner.Device.Engine
import HardwareSigner.Key.Mnemonic

/-!
A device behind a link: frames go in one at a time, and there is one place for an answer. An
answer that was not fetched is lost to the next one. What waits for approval has no answer until
the operator decides, or the policy does.
-/

namespace HardwareSigner

inductive ApprovalPolicy where
  | manual
  | approve
  | deny
  deriving DecidableEq, Repr

def ApprovalPolicy.name : ApprovalPolicy → String
  | .manual => "Manual"
  | .approve => "Approve"
  | .deny => "Deny"

inductive DeviceError where
  | mnemonic (e : MnemonicError)
  | derivation
  | notPending
  deriving DecidableEq

def DeviceError.message : DeviceError → String
  | .mnemonic e => "invalid mnemonic: " ++ e.message
  | .derivation => "key derivation failed"
  | .notPending => "no operation pending approval"

structure SimDevice (σ : Type) where
  engine : Engine σ
  policy : ApprovalPolicy
  /-- The answer that waits to be fetched. -/
  response : Option Bytes

namespace SimDevice

variable {σ : Type} [KeySource σ]

def new (engine : Engine σ) (policy : ApprovalPolicy) : SimDevice σ := ⟨engine, policy, none⟩

def resolved : Except StatusWord Bytes → Bytes
  | .ok b => b ++ Bytes.ofUInt16BE StatusWord.ok.code
  | .error s => Bytes.ofUInt16BE s.code

/-- The engine's answer to a frame, with what is pending decided by the policy; with none, the
frame waits for the operator. -/
def respond (policy : ApprovalPolicy) (e : Engine σ) (apdu : Bytes) : Option Bytes × Engine σ :=
  match e.update apdu with
  | (.ok (.data b), e) => (some (resolved (.ok b)), e)
  | (.error s, e) => (some (resolved (.error s)), e)
  | (.ok .pending, e) =>
    match policy with
    | .manual => (none, e)
    | .approve =>
      let (r, e) := e.approve
      (some (resolved r), e)
    | .deny => (some (resolved (.error .deny)), e.deny.2)

/-- Takes a frame; only an answer displaces the one that waits. -/
def submit (d : SimDevice σ) (apdu : Bytes) : SimDevice σ :=
  match respond d.policy d.engine apdu with
  | (some r, engine) => { d with engine, response := some r }
  | (none, engine) => { d with engine }

/-- Fetches the answer; where there is none, the caller waits. -/
def receive (d : SimDevice σ) : Option Bytes × SimDevice σ :=
  (d.response, { d with response := none })

def approve (d : SimDevice σ) : Except DeviceError Unit × SimDevice σ :=
  if d.engine.isPending then
    let (r, engine) := d.engine.approve
    (.ok (), { d with engine, response := some (resolved r) })
  else (.error .notPending, d)

def deny (d : SimDevice σ) : Except DeviceError Unit × SimDevice σ :=
  match d.engine.deny with
  | (.ok (), engine) => (.ok (), { d with engine, response := some (resolved (.error .deny)) })
  | (.error _, engine) => (.error .notPending, { d with engine })

def isPending (d : SimDevice σ) : Bool := d.engine.isPending

def activity (d : SimDevice σ) : Activity := d.engine.activity

end SimDevice

end HardwareSigner
