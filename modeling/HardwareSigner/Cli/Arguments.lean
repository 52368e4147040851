import HardwareSigner.Cli.Command
import HardwareSigner.Path

/-!
Arguments of the command line tool. Options come before the command, and each command has options
of its own behind it. An option is given once at most; its value follows it, or an equals sign
in it. Behind two dashes alone there are no options any more.

Arguments are read from left to right, and the first fault or the first request for help ends the
reading. A value that follows its option is taken in with the next option, or when all else is
read; so a command is read before the last such value in front of it.
-/

namespace HardwareSigner.Arguments

structure Level where
  flags : List String := []
  /-- Options with a value, and which values they take. -/
  valued : List (String × (String → Bool)) := []
  /-- How many other arguments there may be. -/
  places : Nat := 0

/-- What was found at a level: options with their values, and the other arguments. -/
structure Found where
  options : List (String × String) := []
  others : List String := []
  /-- An option whose value is not taken in yet. -/
  waiting : Option (String × String) := none

inductive Stop where
  | help
  | refused
  deriving DecidableEq

/-- Whether an option takes a value. A flag has none to look at. -/
def Level.takes (level : Level) (name value : String) : Bool :=
  match level.valued.lookup name with
  | some accepts => accepts value
  | none => true

namespace Found

def value? (f : Found) (name : String) : Option String := f.options.lookup name

def add (level : Level) (f : Found) (name value : String) : Except Stop Found :=
  if (f.value? name).isSome then .error .refused
  else if level.takes name value then .ok { f with options := f.options ++ [(name, value)] }
  else .error .refused

def settle (level : Level) (f : Found) : Except Stop Found :=
  match f.waiting with
  | none => .ok f
  | some (name, value) => { f with waiting := none }.add level name value

def place (level : Level) (f : Found) (args : List String) : Except Stop Found :=
  if f.others.length + args.length ≤ level.places then .ok { f with others := f.others ++ args }
  else .error .refused

/-- A request for help, heard if nothing before it is at fault. -/
def help {α : Type} (level : Level) (f : Found) : Except Stop α := do
  let _ ← f.settle level
  throw .help

end Found

def splitEquals (cs : List Char) : List Char × Option (List Char) :=
  let name := cs.takeWhile (· ≠ '=')
  (name, if name.length = cs.length then none else some (cs.drop (name.length + 1)))

/-- Looks like an option. A dash alone does not. -/
def isOption (s : String) : Bool := s.toList.head? = some '-' && s ≠ "-"

def option (level : Level) (f : Found) (arg : String) (rest : List String) :
    Except Stop (Found × List String) :=
  match arg.toList with
  | '-' :: '-' :: cs =>
    let (name, value) := splitEquals cs
    let name := String.ofList name
    if name ∈ level.flags then
      match value with
      | none => do pure (← (← f.settle level).add level name "", rest)
      | some _ => .error .refused
    else if (level.valued.lookup name).isSome then
      match value, rest with
      | some v, rest => do pure (← (← f.settle level).add level name (String.ofList v), rest)
      | none, v :: rest =>
        if isOption v then .error .refused
        else do pure ({ ← f.settle level with waiting := some (name, v) }, rest)
      | none, [] => .error .refused
    else if name = "help" && value.isNone then f.help level
    else .error .refused
  | '-' :: 'h' :: _ => f.help level
  | _ => .error .refused

/-- Finds options up to the first argument that is none, which it leaves; `fuel` bounds the
arguments. -/
def leading (level : Level) : Nat → Found → List String → Except Stop (Found × List String)
  | 0, f, rest => .ok (f, rest)
  | _ + 1, f, [] => .ok (f, [])
  | fuel + 1, f, arg :: rest =>
    if arg = "--" then .error .refused
    else if isOption arg then do
      let (f, rest) ← option level f arg rest
      leading level fuel f rest
    else .ok (f, arg :: rest)

def throughout (level : Level) : Nat → Found → List String → Except Stop Found
  | 0, f, _ => f.settle level
  | _ + 1, f, [] => f.settle level
  | fuel + 1, f, arg :: rest =>
    if arg = "--" then do (← f.settle level).place level rest
    else if isOption arg then do
      let (f, rest) ← option level f arg rest
      throughout level fuel f rest
    else do throughout level fuel (← f.place level [arg]) rest

/-- A number in decimal digits, behind a sign or none. -/
def signed? (cs : List Char) : Option Int :=
  let digits := if cs.head? = some '+' || cs.head? = some '-' then cs.tail else cs
  if digits = [] || !digits.all Char.isDigit then none
  else if cs.head? = some '-' then some (-(Decimal.value digits : Int))
  else some (Decimal.value digits)

/-- A number from zero to below a bound. A minus is no fault in front of zero. -/
def below? (bound : Nat) (s : String) : Option Nat :=
  match signed? s.toList with
  | some n => if 0 ≤ n ∧ n < bound then some n.toNat else none
  | none => none

def unsigned? (bound : Nat) (s : String) : Option Nat :=
  if s.toList.head? = some '-' then none else below? bound s

def read {α : Type} (f : Found) (name : String) (parse : String → Option α) (missing : α) :
    Except Stop α :=
  match f.value? name with
  | none => .ok missing
  | some s =>
    match parse s with
    | some a => .ok a
    | none => .error .refused

def port? : String → Option Nat := below? UInt16.size

def userTimeout? : String → Option Nat := unsigned? UInt64.size

def address? (s : String) : Option IpAddress := IpAddress.parse s.toList

def topLevel : Level where
  valued :=
    [("addr", fun s => (address? s).isSome), ("port", fun s => (port? s).isSome),
      ("user-timeout-s", fun s => (userTimeout? s).isSome),
      ("log-level", fun s => (LogLevel.parse s).isSome)]

def defaultPath : String :=
  String.ofList (DerivationPath.text (.address defaultAccount receiveAddress 0))

def plain (c : Command) (args : List String) : Except Stop Command := do
  let _ ← throughout {} args.length {} args
  pure c

def anyText : String → Bool := fun _ => true

def publicKeyLevel : Level where
  flags := ["display"]
  valued := [("path", anyText)]

def publicKey (args : List String) : Except Stop Command := do
  let f ← throughout publicKeyLevel args.length {} args
  pure (.publicKey ((f.value? "path").getD defaultPath) (f.value? "display").isSome)

def addressType? : String → Option Nat := below? UInt8.size

def addressIndex? : String → Option Nat := below? UInt32.size

def signMessageLevel : Level where
  valued :=
    [("address-type", fun s => (addressType? s).isSome),
      ("address-index", fun s => (addressIndex? s).isSome)]
  places := 1

def signMessage (args : List String) : Except Stop Command := do
  let f ← throughout signMessageLevel args.length {} args
  let addressType ← read f "address-type" addressType? receiveAddress.toNat
  let addressIndex ← read f "address-index" addressIndex? 0
  match f.others with
  | [text] => pure (.signMessage text (UInt8.ofNat addressType) (UInt32.ofNat addressIndex))
  | _ => throw .refused

def signTxLevel : Level where
  valued := [("input", anyText), ("output", anyText)]

def signTx (args : List String) : Except Stop Command := do
  let f ← throughout signTxLevel args.length {} args
  match f.value? "input" with
  | some input => pure (.signTx input (f.value? "output"))
  | none => throw .refused

def commands : List (String × (List String → Except Stop Command)) :=
  [("version", plain .version), ("app-name", plain .appName), ("app-info", plain .appInfo),
    ("public-key", publicKey), ("sign-message", signMessage), ("sign-tx", signTx)]

/-- A request for help, for the tool or for one command. -/
def help : List String → Stop
  | [] => .help
  | [name] => if (commands.lookup name).isSome || name = "help" then .help else .refused
  | _ => .refused

def options (f : Found) (command : Command) : Except Stop Options := do
  let address ← read f "addr" address? .localhost
  let port ← read f "port" port? 9999
  let userTimeout ← read f "user-timeout-s" (fun s => some <$> userTimeout? s) none
  let logLevel ← read f "log-level" LogLevel.parse .info
  pure { address, port := UInt16.ofNat port, userTimeout, logLevel, command }

def parse (args : List String) : Except Stop Options := do
  let (f, rest) ← leading topLevel args.length {} args
  match rest with
  | [] => throw .refused
  | name :: rest =>
    match commands.lookup name with
    | some command =>
      let command ← command rest
      options (← f.settle topLevel) command
    | none => throw (if name = "help" then help rest else .refused)

end HardwareSigner.Arguments
