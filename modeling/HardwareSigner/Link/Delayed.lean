import HardwareSigner.Client.Program

/-!
A link with a delay: every frame arrives and has its answer, and answers come in the order of the
frames, but one that is not in time for a wait is left for a later one.
-/

namespace HardwareSigner

structure DelayedLink where
  /-- The answer to the last of the frames up to now. -/
  device : List Bytes → Bytes
  sent : List Bytes
  /-- How many answers have been delivered. -/
  delivered : Nat
  /-- Of every wait to come, whether the oldest answer comes in time; once the list is over they
  all do. -/
  schedule : List Bool

namespace DelayedLink

def answerTo (l : DelayedLink) (number : Nat) : Bytes := l.device (l.sent.take (number + 1))

def submit (l : DelayedLink) (apdu : Bytes) : DelayedLink := { l with sent := l.sent ++ [apdu] }

/-- A wait is for the oldest answer that was not delivered, if there is one. -/
def receive (l : DelayedLink) : Received × DelayedLink :=
  if l.delivered < l.sent.length ∧ l.schedule.head? ≠ some false then
    (.answer (l.answerTo l.delivered),
      { l with delivered := l.delivered + 1, schedule := l.schedule.tail })
  else (.silent, { l with schedule := l.schedule.tail })

end DelayedLink

instance : Transport DelayedLink where
  submit l apdu := (.accepted, l.submit apdu)
  receive l := l.receive

end HardwareSigner
