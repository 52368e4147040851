import HardwareSigner.Cli.Arguments
import HardwareSigner.Cli.Execute
import HardwareSigner.Stream.Framing
import Std.Async.TCP
import Std.Async.Timer

/-!
The command line tool: a stream to the device over TCP, the log on standard output, errors on
standard error.
-/

namespace HardwareSigner.Tool

open Std.Async Std.Net

structure Session where
  socket : TCP.Socket.Client
  /-- Bytes that arrived and were not taken yet. -/
  unread : IO.Ref ByteArray
  level : LogLevel

inductive Arrival where
  | bytes (b : ByteArray)
  | ended
  | late

def socketAddress (address : IpAddress) (port : UInt16) : SocketAddress :=
  match address with
  | .v4 a b c d => .v4 ⟨⟨#v[a, b, c, d]⟩, port⟩
  | .v6 groups => .v6 ⟨⟨groups⟩, port⟩

/-- The next bytes from the device, whatever their number. -/
def arrival (s : Session) (limit : Option Nat) : IO Arrival := do
  let ofBytes? : Option ByteArray → Async Arrival
    | some b => pure (.bytes b)
    | none => pure .ended
  match limit with
  | none => Async.block do ofBytes? (← s.socket.recv? 4096)
  | some ms => Async.block do
    let timer ← Selector.sleep (Std.Time.Millisecond.Offset.ofNat ms)
    Selectable.one #[.case (s.socket.recvSelector 4096) ofBytes?,
      .case timer fun _ => pure .late]

/-- Waits until so many bytes are there, without taking them. -/
partial def await (s : Session) (limit : Option Nat) (n : Nat) : IO Arrival := do
  let unread ← s.unread.get
  if n ≤ unread.size then return .bytes unread
  match ← arrival s limit with
  | .bytes b =>
    s.unread.set (unread ++ b)
    await s limit n
  | other => return other

def take (s : Session) (n : Nat) : IO Bytes := do
  let unread ← s.unread.get
  s.unread.set (unread.extract n unread.size)
  return (unread.extract 0 n).data.toList

def receive (s : Session) (limit : Option Nat) : IO Received := do
  match ← await s limit Stream.lengthBytes with
  | .late => return .silent
  | .ended => return .failed (.io "early eof")
  | .bytes _ =>
    let n := Bytes.toNatBE (← take s Stream.lengthBytes)
    if Frame.maxLength < n then return .failed .unexpectedResponse
    match ← await s limit (n + Stream.statusBytes) with
    | .late => return .silent
    | .ended => return .failed (.io "early eof")
    | .bytes _ => return .answer (← take s (n + Stream.statusBytes))

def submit (s : Session) (apdu : Bytes) : IO Sent := do
  try
    Async.block (s.socket.send ⟨(Stream.request apdu).toArray⟩)
    return .accepted
  catch e => return .failed (.io (toString e))

/-- Nobody else uses the connection, so it is always free. -/
def runProgram {α : Type} (s : Session) : Program α → IO α
  | .done a => pure a
  | .acquire next => runProgram s next
  | .release next => runProgram s next
  | .submit _ apdu next => do
    let r ← submit s apdu
    runProgram s (next r)
  | .receive limit next => do
    let r ← try receive s limit catch e => pure (.failed (.io (toString e)))
    runProgram s (next r)

instance : Console (ReaderT Session IO) where
  log r := fun s => if r.isShown s.level then IO.println r.line else pure ()
  exchange p := fun s => runProgram s p.run
  readText name := fun _ => do
    try return .ok (← IO.FS.readFile name) catch e => return .error (toString e)
  writeText name text := fun _ => do
    try return .ok (← IO.FS.writeFile name text) catch e => return .error (toString e)

def connect (o : Options) : IO (Except ClientError Session) := do
  try
    let socket ← TCP.Socket.Client.mk
    Async.block (socket.connect (socketAddress o.address o.port))
    return .ok ⟨socket, ← IO.mkRef ByteArray.empty, o.logLevel⟩
  catch e => return .error (.io (toString e))

def fail (e : CliError) : IO UInt32 := do
  e.report.forM IO.eprintln
  return 1

def run (o : Options) : IO UInt32 := do
  match ← connect o with
  | .error e => fail (.client e)
  | .ok session =>
    let program : ExceptT CliError (ReaderT Session IO) Unit :=
      o.command.execute (o.handle Secp256k1.system)
    match ← program.run session with
    | .ok () => return 0
    | .error e => fail e

def usage : String :=
  "[--addr ADDRESS] [--port PORT] [--user-timeout-s SECONDS] [--log-level LEVEL] COMMAND\n\n" ++
  "Commands:\n" ++
  "  version\n  app-name\n  app-info\n" ++
  "  public-key [--path PATH] [--display]\n" ++
  "  sign-message [--address-type TYPE] [--address-index INDEX] MESSAGE\n" ++
  "  sign-tx --input FILE [--output FILE]\n"

end HardwareSigner.Tool

open HardwareSigner in
def main (args : List String) : IO UInt32 := do
  match Arguments.parse args with
  | .ok o => Tool.run o
  | .error .help =>
    IO.print Tool.usage
    return 0
  | .error .refused =>
    IO.eprint Tool.usage
    return 2
