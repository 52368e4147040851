/-!
Code points of the protocol: instructions, signing phases, continuation marks, signature
schemes, and the bounds a device keeps.
-/

namespace HardwareSigner

/-- Class of the application's own commands. -/
def appClass : UInt8 := 0xe0

/-- Class of the dashboard's commands. -/
def dashboardClass : UInt8 := 0xb0

def dashboardAppInfo : UInt8 := 0x01

/-- Bytes a frame can carry behind its one-byte length. -/
def maxPayload : Nat := 255

/-- Inputs a device signs for in one transaction. -/
def maxInputs : Nat := 15

/-- Outputs a device signs for: a destination and change. -/
def maxOutputs : Nat := 2

def maxVersion : Nat := 1

def messageHeaderLength : Nat := 10

def maxFramedMessage : Nat := maxPayload - messageHeaderLength

/-- Bytes of the longest signature, a DER pair. -/
def maxSignature : Nat := 72

inductive Instruction where
  | getVersion
  | getAppName
  | getPublicKey
  | signTx
  | signMessage
  deriving DecidableEq, Repr

namespace Instruction

def all : List Instruction := [getVersion, getAppName, getPublicKey, signTx, signMessage]

def code : Instruction → UInt8
  | getVersion => 0x03
  | getAppName => 0x04
  | getPublicKey => 0x05
  | signTx => 0x06
  | signMessage => 0x07

def ofCode? (c : UInt8) : Option Instruction := all.find? (·.code == c)

def name : Instruction → String
  | getVersion => "GetVersion"
  | getAppName => "GetAppName"
  | getPublicKey => "GetPublicKey"
  | signTx => "SignTx"
  | signMessage => "SignMessage"

end Instruction

/-- Step of a signing exchange, carried in the first parameter. -/
inductive Phase where
  | start
  | outputs
  | inputs
  | nextSignature
  deriving DecidableEq, Repr

namespace Phase

def all : List Phase := [start, outputs, inputs, nextSignature]

def code : Phase → UInt8
  | start => 0
  | outputs => 1
  | inputs => 2
  | nextSignature => 3

def ofCode? (c : UInt8) : Option Phase := all.find? (·.code == c)

def name : Phase → String
  | start => "Start"
  | outputs => "Outputs"
  | inputs => "Inputs"
  | nextSignature => "NextSignature"

end Phase

/-- Whether frames follow in the exchange, carried in the second parameter. -/
inductive Continuation where
  | last
  | more
  deriving DecidableEq, Repr

namespace Continuation

def all : List Continuation := [last, more]

def code : Continuation → UInt8
  | last => 0x00
  | more => 0x80

def ofCode? (c : UInt8) : Option Continuation := all.find? (·.code == c)

def name : Continuation → String
  | last => "Last"
  | more => "More"

end Continuation

inductive SignatureScheme where
  | schnorr
  | ecdsa
  deriving DecidableEq, Repr

namespace SignatureScheme

def all : List SignatureScheme := [schnorr, ecdsa]

def code : SignatureScheme → UInt8
  | schnorr => 0
  | ecdsa => 1

def ofCode? (c : UInt8) : Option SignatureScheme := all.find? (·.code == c)

def name : SignatureScheme → String
  | schnorr => "Schnorr"
  | ecdsa => "Ecdsa"

end SignatureScheme

end HardwareSigner
