import HardwareSigner.Client.Program
import HardwareSigner.Stream.Framing

/-!
The wallet's end of a byte stream, and how it gets one.
-/

namespace HardwareSigner

structure StreamLink where
  incoming : Stream.Incoming
  /-- Bytes that were sent. -/
  sent : Bytes

namespace StreamLink

def submit (l : StreamLink) (apdu : Bytes) : StreamLink :=
  { l with sent := l.sent ++ Stream.request apdu }

def ended : Received := .failed (.io "early eof")

/-- The next answer. One that is too long is left on the stream behind its length. -/
def receive (l : StreamLink) : Received × StreamLink :=
  match Stream.readExact Stream.lengthBytes l.incoming with
  | none => (ended, { l with incoming := [] })
  | some (h, incoming) =>
    let n := Bytes.toNatBE h
    if Frame.maxLength < n then (.failed .unexpectedResponse, { l with incoming })
    else
      match Stream.readExact (n + Stream.statusBytes) incoming with
      | none => (ended, { l with incoming := [] })
      | some (raw, incoming) => (.answer raw, { l with incoming })

end StreamLink

instance : Transport StreamLink where
  submit l apdu := (.accepted, l.submit apdu)
  receive l := l.receive

inductive Network (τ : Type) where
  /-- No way leads there. -/
  | unreachable
  | reachable (link : τ)

def Network.connect {τ : Type} : Network τ → Except ClientError τ
  | .unreachable => .error (.io "Network is unreachable (os error 101)")
  | .reachable link => .ok link

end HardwareSigner
