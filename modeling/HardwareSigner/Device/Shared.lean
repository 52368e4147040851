import Mathlib.Logic.Function.Basic
import HardwareSigner.Device.Simulated

/-!
Clients that share a simulated device. Each of them hands over a frame, waits for an answer, and
goes on to its next frame. The device is locked for a single one of these steps, so that between the
two anyone may come.
-/

namespace HardwareSigner

variable {ι σ : Type}

inductive Exchanged (ι : Type) where
  /-- A frame went in, and the answer to it is ready if there is one. -/
  | handed (client : ι) (apdu : Bytes) (answer : Option Bytes)
  | fetched (client : ι) (raw : Bytes)
  deriving DecidableEq

namespace Exchanged

def client : Exchanged ι → ι
  | handed i _ _ => i
  | fetched i _ => i

def ready? : Exchanged ι → Option Bytes
  | handed _ _ a => a
  | fetched _ _ => none

end Exchanged

structure SharedDevice (ι σ : Type) where
  device : SimDevice σ
  /-- The frames that a client did not hand over yet. -/
  frames : ι → List Bytes
  /-- The client handed a frame over and has no answer yet. -/
  waits : ι → Bool
  log : List (Exchanged ι)

namespace SharedDevice

def start (device : SimDevice σ) (frames : ι → List Bytes) : SharedDevice ι σ :=
  ⟨device, frames, fun _ => false, []⟩

variable [KeySource σ] [DecidableEq ι]

def hand (s : SharedDevice ι σ) (i : ι) (apdu : Bytes) (rest : List Bytes) : SharedDevice ι σ where
  device := s.device.submit apdu
  frames := Function.update s.frames i rest
  waits := Function.update s.waits i true
  log := s.log ++ [.handed i apdu (SimDevice.respond s.device.policy s.device.engine apdu).1]

def fetch (s : SharedDevice ι σ) (i : ι) (raw : Bytes) : SharedDevice ι σ where
  device := s.device.receive.2
  frames := s.frames
  waits := Function.update s.waits i false
  log := s.log ++ [.fetched i raw]

/-- One step of a client. One that waits looks for an answer, whosever it is. -/
def turn (s : SharedDevice ι σ) (i : ι) : SharedDevice ι σ :=
  if s.waits i then
    match s.device.receive.1 with
    | some raw => s.fetch i raw
    | none => s
  else
    match s.frames i with
    | apdu :: rest => s.hand i apdu rest
    | [] => s

def run (s : SharedDevice ι σ) (schedule : List ι) : SharedDevice ι σ := schedule.foldl turn s

end SharedDevice

end HardwareSigner
