import HardwareSigner.Client.Program

/-!
A link that follows a script, for trying a wallet against any device. Frames are accepted unless
the script has an entry of its own for the next one; every wait takes an entry.
-/

namespace HardwareSigner

inductive ScriptEntry where
  /-- What comes of the next frame. -/
  | onSubmit (r : Sent)
  /-- What comes of the next wait. -/
  | onReceive (r : Received)
  deriving DecidableEq

structure ScriptedLink where
  script : List ScriptEntry

namespace ScriptedLink

def submit (l : ScriptedLink) : Sent × ScriptedLink :=
  match l.script with
  | .onSubmit r :: rest => (r, ⟨rest⟩)
  | script => (.accepted, ⟨script⟩)

/-- A wait that the script has no answer for finds nothing to expect. -/
def receive (l : ScriptedLink) : Received × ScriptedLink :=
  match l.script with
  | .onReceive r :: rest => (r, ⟨rest⟩)
  | _ :: rest => (.failed .unexpectedResponse, ⟨rest⟩)
  | [] => (.failed .unexpectedResponse, ⟨[]⟩)

end ScriptedLink

instance : Transport ScriptedLink where
  submit l _ := l.submit
  receive l := l.receive

end HardwareSigner
