import HardwareSigner.Frame

/-!
Frames and answers on a byte stream. A frame goes behind its length in four bytes. So does an
answer, but its length leaves out the status word. A stream arrives in segments that have
nothing to do with the frames on it.
-/

namespace HardwareSigner.Stream

/-- Segments that are still to arrive; after them the stream ends. -/
abbrev Incoming := List Bytes

def lengthBytes : Nat := 4

def statusBytes : Nat := 2

/-- Exactly so many bytes and the rest of the stream. If it ends before, all of it is lost. -/
def readExact (n : Nat) : Incoming → Option (Bytes × Incoming)
  | [] => if n = 0 then some ([], []) else none
  | segment :: rest =>
    if n ≤ segment.length then some (segment.take n, segment.drop n :: rest)
    else do
      let (b, rest) ← readExact (n - segment.length) rest
      pure (segment ++ b, rest)

def request (apdu : Bytes) : Bytes := Bytes.ofNatBE lengthBytes apdu.length ++ apdu

def reply (raw : Bytes) : Bytes :=
  Bytes.ofNatBE lengthBytes (raw.length - statusBytes) ++ raw

end HardwareSigner.Stream
