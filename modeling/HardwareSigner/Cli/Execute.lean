import HardwareSigner.Cli.Console
import HardwareSigner.Cli.SignatureFile
import HardwareSigner.Transaction.File

/-!
The commands of the tool. Every step is told in the log before the operator is waited for.
-/

namespace HardwareSigner

namespace Command

variable {m : Type → Type} [Monad m] [Console m]

def log (gravity : Gravity) (text : String) : ExceptT CliError m Unit :=
  ExceptT.lift (Console.log ⟨gravity, text⟩)

def exchange {α : Type} (p : Exchange α) : ExceptT CliError m α := do
  match ← ExceptT.lift (Console.exchange p) with
  | .ok a => pure a
  | .error e => throw (.client e)

def lift {α : Type} (r : Except ClientError α) : ExceptT CliError m α :=
  match r with
  | .ok a => pure a
  | .error e => throw (.client e)

/-- The part of a file name behind its last point, unless nothing stands before the point. -/
def extension? (name : String) : Option (List Char) :=
  let last := (name.toList.splitOn '/').getLastD []
  match last.reverse.span (· ≠ '.') with
  | (_, []) => none
  | (_, [_]) => none
  | (e, _) => some e.reverse

def isJson (name : String) : Bool := extension? name = some ['j', 's', 'o', 'n']

def quotedChar : Char → List Char
  | '"' => ['\\', '"']
  | '\\' => ['\\', '\\']
  | '\n' => ['\\', 'n']
  | '\r' => ['\\', 'r']
  | '\t' => ['\\', 't']
  | c => [c]

def quotedText (s : String) : String :=
  String.ofList ('"' :: (s.toList.flatMap quotedChar ++ ['"']))

def infoText (i : AppInfo) : String :=
  let flags := if i.flags = [] then "[]"
    else "[\n" ++ String.join (i.flags.map fun f => "        " ++ f.toNat.repr ++ ",\n") ++ "    ]"
  "app info: AppInfo \x7b\n    name: " ++ quotedText i.name ++ ",\n    version: " ++
    quotedText i.version ++ ",\n    flags: " ++ flags ++ ",\n\x7d"

/-- The transaction in a file, whose name tells the format. -/
def readTransaction (name : String) : ExceptT CliError m Transaction := do
  match ← ExceptT.lift (Console.readText name) with
  | .error text => throw (.file text)
  | .ok text =>
    if !isJson name then throw .unsupportedInput
    match TxFile.parse text.toList with
    | none => throw .invalidFile
    | some f => lift f.toTransaction

def writeSignatures (name : String) (signatures : List InputSignature) :
    ExceptT CliError m Unit := do
  if !isJson name then throw .unsupportedOutput
  match ← ExceptT.lift (Console.writeText name (String.ofList (SignatureFile.text signatures))) with
  | .error text => throw (.file text)
  | .ok () => pure ()

def tellKey (h : Handle) (text : String) (display : Bool) : ExceptT CliError m Unit := do
  let path ← match DerivationPath.parse text.toList with
    | .ok path => pure path
    | .error e => throw (.invalidPath text e)
  log .info ("requesting public key for " ++ String.ofList path.text)
  let key ←
    if display then
      log .info "confirm the address on the device"
      let pending ← exchange (h.confirmPublicKey path)
      match ← exchange pending.resolve with
      | .approved key => pure key
      | .denied => throw .publicKeyDenied
    else exchange (h.publicKey path)
  log .info ("public key: " ++ Hex.encode key.key.bytes)
  log .info ("chain code: " ++ Hex.encode key.chainCode.bytes)

def sign (h : Handle) (text : String) (addressType : UInt8) (addressIndex : UInt32) :
    ExceptT CliError m Unit := do
  let message ← lift (PersonalMessage.ofText text addressType addressIndex)
  log .info ("signing message with " ++ String.ofList message.path.text)
  let pending ← exchange (h.signMessage message)
  log .info "confirm the message on the device"
  match ← exchange pending.resolve with
  | .denied => log .warn "message signing denied"
  | .approved s =>
    log .info ("message hash: " ++ Hex.encode s.hash.bytes)
    log .info ("signature: " ++ Hex.encode s.signature)

def signFile (h : Handle) (input : String) (output : Option String) :
    ExceptT CliError m Unit := do
  let tx ← readTransaction input
  log .info ("signing transaction (" ++ tx.inputs.length.repr ++ " inputs, " ++
    tx.outputs.length.repr ++ " outputs)")
  let pending ← exchange (h.signTransaction tx)
  log .info "confirm the transaction on the device"
  match ← exchange pending.resolve with
  | .denied => log .warn "transaction signing denied"
  | .approved stream =>
    let signatures ← exchange stream.collect
    for s in signatures do
      log .info ("input " ++ s.inputIndex.toNat.repr ++ ": " ++ s.scheme.name ++ " " ++
        Hex.encode s.signature)
    match output with
    | some name => writeSignatures name signatures
    | none => pure ()

def execute (h : Handle) : Command → ExceptT CliError m Unit
  | version => do
    let v ← exchange h.version
    log .info ("app version: " ++ v.text)
  | appName => do
    let name ← exchange h.appName
    log .info ("app name: " ++ name)
  | appInfo => do
    let i ← exchange h.appInfo
    log .info (infoText i)
  | publicKey text display => tellKey h text display
  | signMessage text addressType addressIndex => sign h text addressType addressIndex
  | signTx input output => signFile h input output

end Command

def Options.handle (o : Options) (system : SignatureSystem) : Handle :=
  ⟨system, { userTimeout := o.userTimeout.map (· * 1000) }⟩

end HardwareSigner
