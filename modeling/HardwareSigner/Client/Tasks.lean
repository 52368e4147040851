import Mathlib.Logic.Function.Basic
import HardwareSigner.Client.Session

/-!
Tasks that share one handle. Each makes one call after the other; what a call leaves open, a request
for the operator or a signature sequence, stays with the task until a later call ends it. The tasks
take single steps in any order, and the link belongs to one of them at a time: a task that asks for
it waits until it is free. How the link reacts is up to the link.
-/

namespace HardwareSigner

inductive Held where
  | key (p : PendingApproval PublicKey)
  | message (p : PendingApproval SignedMessage)
  | transaction (p : PendingApproval SignatureStream)
  | stream (s : SignatureStream)

def Held.drop : Held → Program Unit
  | key p => p.drop
  | message p => p.drop
  | transaction p => p.drop
  | stream s => s.drop

inductive ClientCall where
  | version
  | appName
  | appInfo
  | publicKey (path : DerivationPath)
  | exchangeRaw (f : Frame)
  | confirmPublicKey (path : DerivationPath)
  | signMessage (m : PersonalMessage)
  | signTransaction (tx : Transaction)
  /-- This call and the ones below are for what was left open last. -/
  | resolve
  | next
  | collect
  | drop
  deriving DecidableEq

inductive Reply where
  | ended (e : Ending)
  /-- The operator is asked. -/
  | asked
  /-- The operator approved, and signatures can be fetched. -/
  | approved
  /-- One call for the next signature. -/
  | item (x : Option (Except ClientError InputSignature))
  /-- There was nothing open that the call is for. -/
  | unable

/-- What a call does on the link, and what it then leaves open. -/
abbrev ClientCall.Course := Program (Reply × List Held)

open ClientCall (Course)

namespace Exchange

variable {α : Type}

def query (p : Exchange α) (f : α → Ending) (held : List Held) : Course :=
  (p.operation f).bind fun e => .done (.ended e, held)

def ask (p : Exchange (PendingApproval α)) (f : PendingApproval α → Held) (held : List Held) :
    Course :=
  p.run.bind fun
    | .error e => .done (.ended (.failed e), held)
    | .ok pending => .done (.asked, f pending :: held)

end Exchange

/-- The wait for the operator; what an approval leads to may be left open again. -/
def PendingApproval.settle {α : Type} (p : PendingApproval α) (f : α → Reply × List Held)
    (rest : List Held) : Course :=
  p.resolve.run.bind fun
    | .error e => .done (.ended (.failed e), rest)
    | .ok .denied => .done (.ended .denied, rest)
    | .ok (.approved a) => .done (f a)

def Handle.call (h : Handle) : ClientCall → List Held → Course
  | .version, held => h.version.query .version held
  | .appName, held => h.appName.query .appName held
  | .appInfo, held => h.appInfo.query .appInfo held
  | .publicKey path, held => (h.publicKey path).query .key held
  | .exchangeRaw f, held => (h.exchangeRaw f).query .raw held
  | .confirmPublicKey path, held => (h.confirmPublicKey path).ask .key held
  | .signMessage m, held => (h.signMessage m).ask .message held
  | .signTransaction tx, held => (h.signTransaction tx).ask .transaction held
  | .resolve, .key p :: rest => p.settle (fun k => (.ended (.key k), rest)) rest
  | .resolve, .message p :: rest => p.settle (fun m => (.ended (.message m), rest)) rest
  | .resolve, .transaction p :: rest => p.settle (fun s => (.approved, .stream s :: rest)) rest
  | .next, .stream s :: rest => s.next.bind fun (x, s) => .done (.item x, .stream s :: rest)
  | .collect, .stream s :: rest => s.collect.query .signatures rest
  | .drop, x :: rest => x.drop.bind fun _ => .done (.ended .dropped, rest)
  | _, held => .done (.unable, held)

inductive Act where
  | submitted (apdu : Bytes) (r : Sent)
  | received (r : Received)
  | returned (reply : Reply) (held : List Held)

structure TaskStep (ι : Type) where
  task : ι
  call : ClientCall
  act : Act

def TaskStep.OnLink {ι : Type} (x : TaskStep ι) : Prop :=
  match x.act with
  | .submitted .. | .received _ => True
  | .returned .. => False

structure Task where
  /-- The calls that were not made yet. -/
  calls : List ClientCall
  /-- What is left open, the latest first. -/
  held : List Held
  /-- The call under way and the rest of it. -/
  running : Option (ClientCall × Course)

structure Tasks (ι : Type) where
  task : ι → Task
  /-- Who has the link. -/
  holder : Option ι
  log : List (TaskStep ι)

structure Turn (ι : Type) where
  task : ι
  sent : Sent
  received : Received

namespace Tasks

variable {ι : Type} [DecidableEq ι]

def start (calls : ι → List ClientCall) : Tasks ι := ⟨fun i => ⟨calls i, [], none⟩, none, []⟩

def note (s : Tasks ι) (i : ι) (c : ClientCall) (act : Act) : Tasks ι :=
  { s with log := s.log ++ [⟨i, c, act⟩] }

def proceed (s : Tasks ι) (i : ι) (c : ClientCall) : Course → Tasks ι
  | .done (reply, held) =>
    { s.note i c (.returned reply held) with
      task := Function.update s.task i { s.task i with held, running := none } }
  | p => { s with task := Function.update s.task i { s.task i with running := some (c, p) } }

/-- One step of a call. Whoever wants the link waits while another task has it, and a wait for an
answer without a bound lasts while the link is silent. -/
def advance (s : Tasks ι) (t : Turn ι) (c : ClientCall) : Course → Tasks ι
  | .done _ => s
  | .acquire next =>
    if s.holder = none then { s with holder := some t.task }.proceed t.task c next else s
  | .release next => { s with holder := none }.proceed t.task c next
  | .submit _ apdu next =>
    (s.note t.task c (.submitted apdu t.sent)).proceed t.task c (next t.sent)
  | .receive limit next =>
    if t.received = .silent ∧ limit = none then s
    else (s.note t.task c (.received t.received)).proceed t.task c (next t.received)

/-- A task begins its next call, or goes on with the one under way. -/
def turn (h : Handle) (s : Tasks ι) (t : Turn ι) : Tasks ι :=
  match (s.task t.task).running with
  | some (c, p) => s.advance t c p
  | none =>
    match (s.task t.task).calls with
    | [] => s
    | c :: calls =>
      { s with task := Function.update s.task t.task { s.task t.task with calls } }.proceed t.task c
        (h.call c (s.task t.task).held)

def run (h : Handle) (s : Tasks ι) (schedule : List (Turn ι)) : Tasks ι :=
  schedule.foldl (turn h) s

end Tasks

end HardwareSigner
