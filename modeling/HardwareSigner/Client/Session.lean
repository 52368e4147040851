import HardwareSigner.Client.Handle

/-!
Operations one after the other on one handle, each with what becomes of it: a request for the
operator may be waited for or given up, and a signature sequence may be read in part.
-/

namespace HardwareSigner

inductive SequenceUse where
  /-- So many calls for the next one, after which it is given up. -/
  | calls (n : Nat)
  | collect
  deriving DecidableEq

inductive Operation where
  | version
  | appName
  | appInfo
  | publicKey (path : DerivationPath)
  | exchangeRaw (f : Frame)
  /-- With or without a wait for the operator. -/
  | confirmPublicKey (path : DerivationPath) (wait : Bool)
  | signMessage (m : PersonalMessage) (wait : Bool)
  /-- What is done with the signatures, if the operator is waited for. -/
  | signTransaction (tx : Transaction) (wait : Option SequenceUse)
  deriving DecidableEq

inductive Ending where
  | failed (e : ClientError)
  | version (v : AppVersion)
  | appName (name : String)
  | appInfo (i : AppInfo)
  | key (k : PublicKey)
  | raw (a : Answer)
  /-- The operator was not waited for. -/
  | dropped
  | denied
  | message (m : SignedMessage)
  /-- What calls for the next signature gave. -/
  | given (xs : List (Option (Except ClientError InputSignature)))
  | signatures (xs : List InputSignature)

namespace ClientError

def isTimeout : ClientError → Bool
  | requestTimeout | userTimeout => true
  | _ => false

end ClientError

namespace Ending

variable {α : Type}

def ofResult (f : α → Ending) : Except ClientError α → Ending
  | .ok a => f a
  | .error e => failed e

def isLate : Option (Except ClientError InputSignature) → Bool
  | some (.error e) => e.isTimeout
  | _ => false

/-- The operation ended before the answer to a frame of its own was there. -/
def abandoned : Ending → Bool
  | failed e => e.isTimeout
  | given xs => xs.any isLate
  | dropped => true
  | _ => false

end Ending

namespace Exchange

variable {α : Type}

def operation (f : α → Ending) (p : Exchange α) : Program Ending :=
  p.run.bind fun r => .done (.ofResult f r)

/-- A request for the operator as a whole operation: it is given up, or its value is made use of. -/
def pendingOperation (use : Option (α → Program Ending)) (p : Exchange (PendingApproval α)) :
    Program Ending :=
  p.run.bind fun
    | .error e => .done (.failed e)
    | .ok pending =>
      match use with
      | none => pending.drop.bind fun _ => .done .dropped
      | some use => pending.resolve.run.bind fun
        | .error e => .done (.failed e)
        | .ok .denied => .done .denied
        | .ok (.approved a) => use a

end Exchange

def SignatureStream.use (s : SignatureStream) : SequenceUse → Program Ending
  | .calls n => (nextMany n s).bind fun (xs, s) =>
    s.drop.bind fun _ => .done (.given (xs.map Prod.fst))
  | .collect => s.collect.operation .signatures

namespace Handle

def perform (h : Handle) : Operation → Program Ending
  | .version => h.version.operation .version
  | .appName => h.appName.operation .appName
  | .appInfo => h.appInfo.operation .appInfo
  | .publicKey path => (h.publicKey path).operation .key
  | .exchangeRaw f => (h.exchangeRaw f).operation .raw
  | .confirmPublicKey path wait =>
    (h.confirmPublicKey path).pendingOperation (if wait then some fun k => .done (.key k) else none)
  | .signMessage m wait =>
    (h.signMessage m).pendingOperation (if wait then some fun m => .done (.message m) else none)
  | .signTransaction tx wait =>
    (h.signTransaction tx).pendingOperation (wait.map fun use s => s.use use)

def session (h : Handle) : List Operation → Program (List Ending)
  | [] => .done []
  | op :: ops => (h.perform op).bind fun o => (h.session ops).bind fun os => .done (o :: os)

end Handle

end HardwareSigner
