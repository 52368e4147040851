import HardwareSigner.Cli.Command
import HardwareSigner.Client.Handle

/-!
What the command line tool needs around it: a log, files, and a link to the device. Its errors
name their cause where they have one.
-/

namespace HardwareSigner

inductive Gravity where
  | info
  | warn
  deriving DecidableEq, Repr

def Gravity.level : Gravity → LogLevel
  | .info => .info
  | .warn => .warn

structure LogRecord where
  gravity : Gravity
  text : String
  deriving DecidableEq

namespace LogRecord

def isShown (l : LogLevel) (r : LogRecord) : Bool := r.gravity.level.rank ≤ l.rank

def line (r : LogRecord) : String := "[" ++ r.gravity.level.name ++ "] " ++ r.text

end LogRecord

inductive CliError where
  | client (e : ClientError)
  | invalidPath (text : String) (e : PathError)
  | publicKeyDenied
  /-- A file could not be read or written, with the words of the system. -/
  | file (text : String)
  | invalidFile
  | unsupportedInput
  | unsupportedOutput
  deriving DecidableEq

namespace CliError

def message : CliError → String
  | client e => e.message
  | invalidPath text e => "invalid derivation path \x27" ++ text ++ "\x27: " ++ e.name
  | publicKeyDenied => "public key denied"
  | file text => text
  | invalidFile => "invalid transaction file"
  | unsupportedInput => "unsupported input file format"
  | unsupportedOutput => "unsupported output file format"

def cause? : CliError → Option String
  | client (.io text) => some text
  | _ => none

def report (e : CliError) : List String :=
  ("Error: " ++ e.message) ::
    match e.cause? with
    | some cause => ["", "Caused by:", "    " ++ cause]
    | none => []

end CliError

/-- Where the tool runs. -/
class Console (m : Type → Type) where
  log : LogRecord → m Unit
  exchange : {α : Type} → Exchange α → m (Except ClientError α)
  /-- The text of a file, or why there is none. -/
  readText : String → m (Except String String)
  writeText : String → String → m (Except String Unit)

end HardwareSigner
