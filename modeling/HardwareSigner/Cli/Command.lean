import HardwareSigner.Cli.Address

/-!
What the command line tool is told: where the device is, how long to wait, what to show, and what
to do.
-/

namespace HardwareSigner

/-- Which log records are shown: those of this level and of graver ones. -/
inductive LogLevel where
  | off
  | error
  | warn
  | info
  | debug
  | trace
  deriving DecidableEq, Repr

namespace LogLevel

def all : List LogLevel := [off, error, warn, info, debug, trace]

def name : LogLevel → String
  | off => "OFF"
  | error => "ERROR"
  | warn => "WARN"
  | info => "INFO"
  | debug => "DEBUG"
  | trace => "TRACE"

def rank : LogLevel → Nat
  | off => 0
  | error => 1
  | warn => 2
  | info => 3
  | debug => 4
  | trace => 5

/-- Reads a name in any mixture of cases. -/
def parse (s : String) : Option LogLevel :=
  all.find? fun l => l.name.toList = s.toList.map Char.toUpper

end LogLevel

inductive Command where
  | version
  | appName
  | appInfo
  | publicKey (path : String) (display : Bool)
  | signMessage (text : String) (addressType : UInt8) (addressIndex : UInt32)
  | signTx (input : String) (output : Option String)
  deriving DecidableEq

structure Options where
  address : IpAddress := .localhost
  port : UInt16 := 9999
  /-- Seconds the operator has, if there is a bound. -/
  userTimeout : Option Nat := none
  logLevel : LogLevel := .info
  command : Command
  deriving DecidableEq

end HardwareSigner
