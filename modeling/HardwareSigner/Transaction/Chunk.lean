import HardwareSigner.Frame
import HardwareSigner.Transaction.Basic

/-!
The frames of a signing exchange: the header, one frame per output, one per input, the last of
which ends the exchange.
-/

namespace HardwareSigner

structure Chunk where
  phase : Phase
  continuation : Continuation
  frame : Frame
  deriving DecidableEq

namespace Chunk

def isTerminal (c : Chunk) : Bool := c.continuation = .last

def reassemble (cs : List Chunk) : Bytes := cs.flatMap (·.frame.data)

def ofStep {α : Type} [Request α] (r : α) (phase : Phase) (cont : Continuation) :
    Except WireError Chunk := do
  let frame ← Frame.ofStep r phase cont
  pure ⟨phase, cont, frame⟩

end Chunk

namespace Transaction

/-- Input chunks; only the one that ends the list ends the exchange. -/
def inputChunks : List TransactionInput → List (Except WireError Chunk)
  | [] => []
  | [i] => [Chunk.ofStep i.toRecord .inputs .last]
  | i :: rest => Chunk.ofStep i.toRecord .inputs .more :: inputChunks rest

/-- Every chunk of the exchange, or why it has no frame. -/
def plan (tx : Transaction) : List (Except WireError Chunk) :=
  Chunk.ofStep tx.header .start .more ::
    (tx.outputs.map (fun o => Chunk.ofStep o.toRecord .outputs .more) ++ inputChunks tx.inputs)

end Transaction

inductive Chunker.Place where
  | start
  | outputs (i : Nat)
  | inputs (i : Nat)
  | done
  deriving DecidableEq

structure Chunker where
  tx : Transaction
  place : Chunker.Place
  sentOutputs : Nat
  sentInputs : Nat

namespace Chunker

def ofTransaction (tx : Transaction) : Chunker := ⟨tx, .start, 0, 0⟩

/-- Hands out a chunk, which is counted, and goes on at `place` unless the exchange ends with it;
a chunk that has no frame ends the exchange and is not counted. -/
def give (c : Chunker) (x : Except WireError Chunk) (place : Place) :
    Option (Except ClientError Chunk) × Chunker :=
  match x with
  | .error e => (some (.error (.wire e)), { c with place := .done })
  | .ok chunk =>
    let place := if chunk.isTerminal then .done else place
    let sentOutputs := c.sentOutputs + if chunk.phase = .outputs then 1 else 0
    let sentInputs := c.sentInputs + if chunk.phase = .inputs then 1 else 0
    (some (.ok chunk), { c with place, sentOutputs, sentInputs })

def nextInput (c : Chunker) (i : Nat) : Option (Except ClientError Chunk) × Chunker :=
  match c.tx.inputs[i]? with
  | some input =>
    let cont := if i + 1 = c.tx.inputs.length then .last else .more
    c.give (Chunk.ofStep input.toRecord .inputs cont) (.inputs (i + 1))
  | none => (none, { c with place := .done })

/-- The next chunk; after one that has no frame there is none. -/
def next (c : Chunker) : Option (Except ClientError Chunk) × Chunker :=
  match c.place with
  | .start => c.give (Chunk.ofStep c.tx.header .start .more) (.outputs 0)
  | .outputs i =>
    match c.tx.outputs[i]? with
    | some output => c.give (Chunk.ofStep output.toRecord .outputs .more) (.outputs (i + 1))
    | none => c.nextInput 0
  | .inputs i => c.nextInput i
  | .done => (none, c)

def run : Nat → Chunker → List (Option (Except ClientError Chunk) × Chunker)
  | 0, _ => []
  | n + 1, c => c.next :: run n c.next.2

end Chunker

namespace Transaction

def chunks (tx : Transaction) : Except ClientError (List Chunk) :=
  tx.plan.mapM fun c => ClientError.liftWire c

end Transaction

end HardwareSigner
