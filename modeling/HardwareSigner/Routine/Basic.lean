import HardwareSigner.Client.Handle

/-!
Exercises for a device and the wallet that drives it. An exercise runs on a link and now and then
has the operator decide. It fails with an error of the wallet, with a refusal by the operator,
or because the device does not do as it should. Amounts are reckoned in words, and an exercise that
minds its words stops once a result outgrows them.
-/

namespace HardwareSigner

inductive RoutineError where
  | noKeys
  | noInputs
  | publicKeyDenied
  | messageDenied
  | transactionDenied
  | client (e : ClientError)
  /-- The exercise stops: what it rests on does not hold, be it a promise of the device or that
  results stay within their words. -/
  | broken
  deriving DecidableEq

namespace RoutineError

def message : RoutineError → String
  | noKeys => "at least one key required"
  | noInputs => "at least one input required"
  | publicKeyDenied => "public key confirmation denied"
  | messageDenied => "message signing denied"
  | transactionDenied => "transaction denied"
  | client e => e.message
  | broken => "a promise was broken"

end RoutineError

/-- An exercise on a link; there is no end if the wallet gets stuck. -/
abbrev Routine (τ α : Type) := ExceptT RoutineError (StateT τ Option) α

/-- What an exercise does about a result that outgrows its word. -/
inductive Arithmetic where
  /-- It stops. -/
  | checked
  /-- It goes on with what fits in the word. -/
  | wrapping
  deriving DecidableEq

namespace Arithmetic

variable {τ α : Type}

def result (a : Arithmetic) (outgrown : Bool) (x : α) : Routine τ α :=
  if a = .checked ∧ outgrown then throw .broken else pure x

def add (a : Arithmetic) (x y : UInt8) : Routine τ UInt8 :=
  a.result (x.toBitVec.uaddOverflow y.toBitVec) (x + y)

def mul (a : Arithmetic) (x y : UInt64) : Routine τ UInt64 :=
  a.result (x.toBitVec.umulOverflow y.toBitVec) (x * y)

def sub (a : Arithmetic) (x y : UInt64) : Routine τ UInt64 :=
  a.result (x.toBitVec.usubOverflow y.toBitVec) (x - y)

end Arithmetic

namespace Routine

variable {τ α : Type}

def exchange [Transport τ] (p : Exchange α) : Routine τ α := ExceptT.mk fun t =>
  match p.run.run t with
  | (some (.ok a), t) => some (.ok a, t)
  | (some (.error e), t) => some (.error (.client e), t)
  | (none, _) => none

def lift (r : Except ClientError α) : Routine τ α :=
  match r with
  | .ok a => pure a
  | .error e => throw (.client e)

def expect (p : Bool) : Routine τ Unit := if p then pure () else throw .broken

/-- The operator decides, then the wallet takes the answer. -/
def decided [Transport τ] (decide : τ → τ) (refusal : RoutineError) (p : PendingApproval α) :
    Routine τ α := do
  modify decide
  match ← exchange p.resolve with
  | .approved a => pure a
  | .denied => throw refusal

end Routine

end HardwareSigner
