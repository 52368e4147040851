import HardwareSigner.Stream.Server

/-!
One connection of a wallet to a served device, as it goes on. What an end has written is under way
until it arrives at the other, in segments of any size and at any time. An end that reads waits
until all of a frame or an answer has arrived.
-/

namespace HardwareSigner

inductive Serving where
  | listening
  /-- A frame waits for the operator, and with it the connection. -/
  | held
  | closed
  deriving DecidableEq

structure Connection (σ : Type) where
  /-- Frames that the wallet has yet to send. -/
  frames : List Bytes
  /-- The wallet's end; what it sent is there until it arrives at the device. -/
  wallet : StreamLink
  /-- Segments that arrived at the device. -/
  arrived : Stream.Incoming
  device : SimDevice σ
  serving : Serving
  /-- Bytes that the device sent and that have not arrived at the wallet. -/
  replies : Bytes
  /-- What the wallet's waits have given. -/
  received : List Received

namespace Connection

inductive Turn where
  /-- The wallet sends its next frame. -/
  | submit
  /-- So many bytes arrive at the device, or as many as there are. -/
  | carry (n : Nat)
  /-- The device reads a frame and answers it. -/
  | serve
  /-- So many bytes arrive at the wallet, or as many as there are. -/
  | carryBack (n : Nat)
  /-- The wallet reads an answer. -/
  | receive

variable {σ : Type}

def start (device : SimDevice σ) (frames : List Bytes) : Connection σ :=
  ⟨frames, ⟨[], []⟩, [], device, .listening, [], []⟩

def submit (c : Connection σ) : Connection σ :=
  match c.frames with
  | [] => c
  | apdu :: frames => { c with frames, wallet := c.wallet.submit apdu }

def carry (c : Connection σ) (n : Nat) : Connection σ :=
  let segment := c.wallet.sent.take n
  if segment.isEmpty then c
  else
    { c with
      wallet := { c.wallet with sent := c.wallet.sent.drop n }
      arrived := c.arrived ++ [segment] }

def carryBack (c : Connection σ) (n : Nat) : Connection σ :=
  let segment := c.replies.take n
  if segment.isEmpty then c
  else
    { c with
      wallet := { c.wallet with incoming := c.wallet.incoming ++ [segment] }
      replies := c.replies.drop n }

def oversized (arrived : Stream.Incoming) : Bool :=
  match Stream.readExact Stream.lengthBytes arrived with
  | some (h, _) => Frame.maxLength < Bytes.toNatBE h
  | none => false

/-- The wallet waits as long as more bytes may come. -/
def receive (c : Connection σ) : Connection σ :=
  let (r, wallet) := c.wallet.receive
  if r = StreamLink.ended ∧ (c.serving ≠ .closed ∨ c.replies ≠ []) then c
  else { c with wallet, received := c.received ++ [r] }

variable [KeySource σ]

/-- The device waits as long as there is no whole frame. -/
def serve (c : Connection σ) : Connection σ :=
  if c.serving ≠ .listening then c
  else
    match Stream.serveNext c.device c.arrived with
    | .closed => if oversized c.arrived then { c with serving := .closed } else c
    | .waiting device => { c with device, serving := .held }
    | .answered raw device arrived =>
      { c with arrived, device, replies := c.replies ++ Stream.reply raw }

def turn (c : Connection σ) : Turn → Connection σ
  | .submit => c.submit
  | .carry n => c.carry n
  | .serve => c.serve
  | .carryBack n => c.carryBack n
  | .receive => c.receive

def run (c : Connection σ) (turns : List Turn) : Connection σ := turns.foldl turn c

end Connection

end HardwareSigner
