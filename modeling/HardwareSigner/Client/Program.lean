import HardwareSigner.Error
import HardwareSigner.Frame

/-!
What a wallet does on a link to a device, as a tree: each step says what is done, how long that
may take, and how to go on for every way the link can react. A link that stays silent reacts
with `silent` once the time is over. The link is shared, so a program takes it and gives it back.
-/

namespace HardwareSigner

inductive Sent where
  | accepted
  | failed (e : ClientError)
  | silent
  deriving DecidableEq

inductive Received where
  | answer (raw : Bytes)
  | failed (e : ClientError)
  | silent
  deriving DecidableEq

/-- A link to a device. Silence is to last longer than any bound. -/
class Transport (τ : Type) where
  submit : τ → Bytes → Sent × τ
  receive : τ → Received × τ

inductive Program (α : Type) where
  | done (a : α)
  /-- Takes the link, once nobody else has it. -/
  | acquire (next : Program α)
  /-- Gives the link back. -/
  | release (next : Program α)
  /-- Hands a frame over, in so many milliseconds at most. -/
  | submit (limit : Nat) (apdu : Bytes) (next : Sent → Program α)
  /-- Waits for an answer, so many milliseconds at most or for ever. -/
  | receive (limit : Option Nat) (next : Received → Program α)

namespace Program

variable {α β γ : Type}

def bind : Program α → (α → Program β) → Program β
  | done a, f => f a
  | acquire next, f => acquire (next.bind f)
  | release next, f => release (next.bind f)
  | submit limit apdu next, f => submit limit apdu fun r => (next r).bind f
  | receive limit next, f => receive limit fun r => (next r).bind f

instance : Monad Program where
  pure := done
  bind := bind

def free : Program Unit := release (done ())

/-- Runs a program that has a link to itself. There is no value if it waits for ever. -/
def run {τ : Type} [Transport τ] : Program α → τ → Option α × τ
  | done a, t => (some a, t)
  | acquire next, t => next.run t
  | release next, t => next.run t
  | submit _ apdu next, t =>
    let (r, t) := Transport.submit t apdu
    (next r).run t
  | receive limit next, t =>
    let (r, t) := Transport.receive t
    if r = .silent ∧ limit = none then (none, t) else (next r).run t

theorem bind_assoc (p : Program α) (f : α → Program β) (g : β → Program γ) :
    (p.bind f).bind g = p.bind fun a => (f a).bind g := by
  induction p with
  | done a => rfl
  | acquire next ih => simp [bind, ih]
  | release next ih => simp [bind, ih]
  | submit limit apdu next ih => simp [bind, ih]
  | receive limit next ih => simp [bind, ih]

theorem run_bind {τ : Type} [Transport τ] (p : Program α) (f : α → Program β) (t : τ) :
    (p.bind f).run t =
      match p.run t with
      | (some a, t) => (f a).run t
      | (none, t) => (none, t) := by
  induction p generalizing t with
  | done a => rfl
  | acquire next ih => simp [bind, run, ih]
  | release next ih => simp [bind, run, ih]
  | submit limit apdu next ih => simp [bind, run, ih]
  | receive limit next ih =>
    simp only [bind, run, ih]
    split <;> rfl

end Program

abbrev Exchange (α : Type) := ExceptT ClientError Program α

namespace Exchange

variable {α : Type}

def lift (r : Except ClientError α) : Exchange α := ExceptT.mk (.done r)

def liftWire (r : Except WireError α) : Exchange α := lift (ClientError.liftWire r)

/-- Gives the link back after a program, whatever its end. -/
def releasing (p : Exchange α) : Exchange α :=
  ExceptT.mk (p.run.bind fun r => .release (.done r))

/-- Holds the link for as long as a program runs, whatever its end. -/
def holding (p : Exchange α) : Exchange α := ExceptT.mk (.acquire (releasing p).run)

/-- Takes the link and keeps it, unless the program fails. -/
def taking (p : Exchange α) : Exchange α :=
  ExceptT.mk (.acquire (p.run.bind fun
    | .ok a => .done (.ok a)
    | .error e => .release (.done (.error e))))

def submit (limit : Nat) (f : Frame) : Exchange Unit :=
  ExceptT.mk (.submit limit f.layout fun
    | .accepted => .done (.ok ())
    | .failed e => .done (.error e)
    | .silent => .done (.error .requestTimeout))

/-- Waits for an answer; `late` is the error if there is none in time. -/
def receive (limit : Option Nat) (late : ClientError) : Exchange Bytes :=
  ExceptT.mk (.receive limit fun
    | .answer raw => .done (.ok raw)
    | .failed e => .done (.error e)
    | .silent => .done (.error late))

def answerOf (raw : Bytes) : Except ClientError Answer :=
  match Answer.read.decode raw with
  | .ok (a, _) => .ok a
  | .error e => .error (.wire e)

def answer (limit : Nat) (f : Frame) : Exchange Answer := do
  submit limit f
  let raw ← receive (some limit) .requestTimeout
  lift (answerOf raw)

/-- Submits a frame and gives the data of its answer, which has to be a success. -/
def request (limit : Nat) (f : Frame) : Exchange Bytes := do
  let a ← answer limit f
  lift (ClientError.checkStatus a.status)
  pure a.data

end Exchange

end HardwareSigner
