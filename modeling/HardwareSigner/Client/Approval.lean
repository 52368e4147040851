import HardwareSigner.Client.Program

/-!
Requests that wait for the operator. The last frame is submitted and the link is kept, so that
the next answer is the operator's; it is given back when the wait ends, unless the value that
comes of it goes on using the link.
-/

namespace HardwareSigner

inductive Approval (α : Type) where
  | approved (a : α)
  | denied
  deriving DecidableEq

structure Completion (α : Type) where
  finish : Bytes → Except ClientError α
  /-- The value goes on using the link. -/
  keepsLink : Bool

structure PendingApproval (α : Type) where
  completion : Completion α
  /-- Milliseconds the operator has, if there is a bound. -/
  userTimeout : Option Nat

namespace PendingApproval

variable {α : Type}

/-- What the operator's answer says; a status word that is neither is an error. -/
def judge (c : Completion α) (raw : Bytes) : Except ClientError (Approval α) := do
  let a ← Exchange.answerOf raw
  match a.statusWord? with
  | some .ok => .approved <$> c.finish a.data
  | some .deny => pure .denied
  | some s => throw (.status s)
  | none => throw (.unknownStatus a.status)

def freesLink (c : Completion α) : Except ClientError (Approval α) → Bool
  | .ok (.approved _) => !c.keepsLink
  | _ => true

def await (p : PendingApproval α) : Exchange (Approval α) := do
  let raw ← Exchange.receive p.userTimeout .userTimeout
  Exchange.lift (judge p.completion raw)

/-- Waits for the operator, then gives the link back unless it is still needed. -/
def resolve (p : PendingApproval α) : Exchange (Approval α) :=
  ExceptT.mk (p.await.run.bind fun r =>
    if freesLink p.completion r then .release (.done r) else .done r)

/-- Gives up the wait; an answer that comes later is left on the link. -/
def drop (_ : PendingApproval α) : Program Unit := .free

end PendingApproval

end HardwareSigner
