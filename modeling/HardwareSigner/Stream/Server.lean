import HardwareSigner.Device.Simulated
import HardwareSigner.Stream.Link

/-!
A device behind a byte stream. Frames are answered one after another, until the stream ends or a
length is too large. The device outlives its connections.
-/

namespace HardwareSigner.Stream

variable {σ : Type} [KeySource σ]

inductive Served (σ : Type) where
  /-- The connection is closed. -/
  | closed
  /-- The answer waits for an operator, and with it the connection. -/
  | waiting (d : SimDevice σ)
  | answered (raw : Bytes) (d : SimDevice σ) (rest : Incoming)

def serveNext (d : SimDevice σ) (incoming : Incoming) : Served σ :=
  match readExact lengthBytes incoming with
  | none => .closed
  | some (h, incoming) =>
    let n := Bytes.toNatBE h
    if Frame.maxLength < n then .closed
    else
      match readExact n incoming with
      | none => .closed
      | some (apdu, incoming) =>
        match (d.submit apdu).receive with
        | (some raw, d) => .answered raw d incoming
        | (none, d) => .waiting d

/-- Answers frames to the end of the stream; `fuel` bounds their number. -/
def serveMany : Nat → SimDevice σ → Incoming → List Bytes × SimDevice σ
  | 0, d, _ => ([], d)
  | fuel + 1, d, incoming =>
    match serveNext d incoming with
    | .closed => ([], d)
    | .waiting d => ([], d)
    | .answered raw d rest =>
      let (raws, d) := serveMany fuel d rest
      (raw :: raws, d)

/-- One connection: its answers, and the device after it. Every frame takes its length at
least. -/
def serve (d : SimDevice σ) (incoming : Incoming) : List Bytes × SimDevice σ :=
  serveMany (incoming.flatten.length + 1) d incoming

def serveAll (d : SimDevice σ) : List Incoming → List Bytes
  | [] => []
  | c :: cs =>
    let (raws, d) := serve d c
    raws.flatMap reply :: serveAll d cs

end HardwareSigner.Stream

namespace HardwareSigner

/-- A wallet's end of a stream at whose other end a device is served. -/
structure ServedLink (σ : Type) where
  device : SimDevice σ
  link : StreamLink

namespace ServedLink

variable {σ : Type} [KeySource σ]

def ofDevice (d : SimDevice σ) : ServedLink σ := ⟨d, ⟨[], []⟩⟩

def submit (l : ServedLink σ) (apdu : Bytes) : ServedLink σ :=
  let (raws, device) := Stream.serve l.device [Stream.request apdu]
  let link := l.link.submit apdu
  ⟨device, { link with incoming := link.incoming ++ raws.map Stream.reply }⟩

/-- The stream stays open, so that with nothing on it the wallet waits. -/
def receive (l : ServedLink σ) : Received × ServedLink σ :=
  if l.link.incoming.flatten.isEmpty then (.silent, l)
  else
    let (r, link) := l.link.receive
    (r, { l with link })

instance : Transport (ServedLink σ) where
  submit l apdu := (.accepted, l.submit apdu)
  receive l := l.receive

end ServedLink

end HardwareSigner
