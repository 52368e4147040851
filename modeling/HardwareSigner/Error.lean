import HardwareSigner.Wire
import HardwareSigner.Path
import HardwareSigner.Status
import HardwareSigner.Code
import HardwareSigner.Text.Hex

/-!
What can go wrong for a wallet: on the way to the device, at the device, with what is to be
signed, and with the answers.
-/

namespace HardwareSigner

inductive ClientError where
  /-- The transport failed, with its own words for it. -/
  | io (text : String)
  | unexpectedResponse
  | userTimeout
  | requestTimeout
  /-- The device refused with a known status word. -/
  | status (s : StatusWord)
  | unknownStatus (code : UInt16)
  | wire (e : WireError)
  | invalidVersion (version : UInt16)
  | messageTooLong (length : Nat)
  | noInputs
  | noOutputs
  | tooManyInputs (count : Nat)
  | tooManyOutputs (count : Nat)
  | scriptTooLong (length : Nat)
  | invalidPath (e : PathError)
  | invalidKey
  | hash
  | sighashMismatch (input : UInt8)
  | messageHashMismatch
  | invalidSignature (input : UInt8)
  | invalidMessageSignature
  | unexpectedInputIndex (input : UInt8)
  | duplicateSignature (input : UInt8)
  | tooManySignatures (expected : Nat)
  | missingSignatures (expected received : Nat)
  deriving DecidableEq

namespace ClientError

def message : ClientError → String
  | io text => "Transport error: " ++ text
  | unexpectedResponse => "Unexpected APDU response"
  | userTimeout => "Timeout waiting for user interaction"
  | requestTimeout => "Timeout waiting for device response"
  | status s => "Device rejected request: " ++ s.name
  | unknownStatus code => "Device returned unknown status: 0x" ++ Hex.encode (Bytes.ofUInt16BE code)
  | wire e => "APDU encode / decode failed: " ++ e.name
  | invalidVersion v =>
    "Unsupported transaction version " ++ v.toNat.repr ++ " (maximum " ++ maxVersion.repr ++ ")"
  | messageTooLong n =>
    "Message too long (" ++ n.repr ++ " bytes, maximum " ++ maxFramedMessage.repr ++ ")"
  | noInputs => "Transaction has no inputs"
  | noOutputs => "Transaction has no outputs"
  | tooManyInputs n => "Too many inputs (" ++ n.repr ++ ")"
  | tooManyOutputs n => "Too many outputs (" ++ n.repr ++ ")"
  | scriptTooLong n => "Script public key too long (" ++ n.repr ++ " bytes)"
  | invalidPath e => "Invalid derivation path: " ++ e.name
  | invalidKey => "Invalid key object"
  | hash => "Hash initialisation failed"
  | sighashMismatch i => "Sighash mismatch for input " ++ i.toNat.repr
  | messageHashMismatch => "Message hash mismatch"
  | invalidSignature i => "Invalid signature for input " ++ i.toNat.repr
  | invalidMessageSignature => "Invalid message signature"
  | unexpectedInputIndex i => "Unexpected input index " ++ i.toNat.repr
  | duplicateSignature i => "Duplicate signature for input " ++ i.toNat.repr
  | tooManySignatures n =>
    "Device signalled more than " ++ n.repr ++ " signatures (maximum " ++ maxInputs.repr ++ ")"
  | missingSignatures expected received =>
    "Missing signatures (expected " ++ expected.repr ++ ", received " ++ received.repr ++ ")"

/-- Only a success passes; any other status word is an error of its own. -/
def checkStatus (code : UInt16) : Except ClientError Unit :=
  match StatusWord.ofCode? code with
  | some .ok => .ok ()
  | some s => .error (status s)
  | none => .error (unknownStatus code)

def status? : ClientError → Option StatusWord
  | status s => some s
  | _ => none

def liftWire {α : Type} : Except WireError α → Except ClientError α
  | .ok a => .ok a
  | .error e => .error (wire e)

end ClientError

end HardwareSigner
