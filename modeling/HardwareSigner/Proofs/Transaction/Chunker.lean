import HardwareSigner.Proofs.Transaction.Chunks

/-! A chunker call by call. What it has still to hand out is a list that depends only on where it
is; every call takes the first chunk off it, and a chunk without a frame is the last one it comes
to. So the answer to a call is known from the transaction and the number of the call. -/

namespace HardwareSigner

namespace Chunker

open Transaction

/-- What is handed out of a plan, to its end or to the first chunk that has no frame. -/
def delivered : List (Except WireError Chunk) → List (Except ClientError Chunk)
  | [] => []
  | .error e :: _ => [.error (.wire e)]
  | .ok c :: left => .ok c :: delivered left

/-- As long as all chunks before it have a frame, a chunk of the plan is handed out. -/
theorem delivered_getElem? {plan : List (Except WireError Chunk)} {k : Nat}
    (h : ∀ x ∈ plan.take k, ∃ c, x = .ok c) :
    (delivered plan)[k]? = plan[k]?.map ClientError.liftWire := by
  induction plan generalizing k with
  | nil => rfl
  | cons x plan ih =>
    cases k with
    | zero => cases x <;> rfl
    | succ k =>
      obtain ⟨⟨c, rfl⟩, hrest⟩ := List.forall_mem_cons.1 h
      exact ih hrest

theorem delivered_eq_none {plan : List (Except WireError Chunk)} {i k : Nat} {e : WireError}
    (h : plan[i]? = some (.error e)) (hk : i < k) : (delivered plan)[k]? = none := by
  induction plan generalizing i k with
  | nil => cases h
  | cons x plan ih =>
    obtain ⟨k, rfl⟩ : ∃ n, k = n + 1 := ⟨k - 1, by omega⟩
    cases x with
    | error e' => rfl
    | ok c =>
      cases i with
      | zero => cases h
      | succ i => exact ih h (Nat.lt_of_succ_lt_succ hk)

theorem length_delivered_le (plan : List (Except WireError Chunk)) :
    (delivered plan).length ≤ plan.length := by
  induction plan with
  | nil => exact Nat.le_refl 0
  | cons x plan ih =>
    cases x with
    | error e => exact Nat.succ_le_succ (Nat.zero_le _)
    | ok c => exact Nat.succ_le_succ ih

theorem delivered_map_ok (cs : List Chunk) :
    delivered (cs.map Except.ok) = cs.map Except.ok := by
  induction cs with
  | nil => rfl
  | cons c cs ih => exact congrArg (Except.ok c :: ·) ih

theorem delivered_error (cs : List Chunk) (e : WireError) (rest : List (Except WireError Chunk)) :
    delivered (cs.map Except.ok ++ .error e :: rest) =
      cs.map Except.ok ++ [.error (.wire e)] := by
  induction cs with
  | nil => rfl
  | cons c cs ih => exact congrArg (Except.ok c :: ·) ih

def left (tx : Transaction) : Place → List (Except WireError Chunk)
  | .start => tx.plan
  | .outputs i => (tx.outputs.drop i).map (fun o => Chunk.ofStep o.toRecord .outputs .more) ++
      inputChunks tx.inputs
  | .inputs i => inputChunks (tx.inputs.drop i)
  | .done => []

def coming (c : Chunker) : List (Except ClientError Chunk) := delivered (left c.tx c.place)

/-- The call hands out the first chunk of this plan and leaves the others for later calls. -/
structure Takes (answer : Option (Except ClientError Chunk) × Chunker)
    (plan : List (Except WireError Chunk)) : Prop where
  head : answer.1 = (delivered plan).head?
  tail : answer.2.coming = (delivered plan).tail

variable {c : Chunker}

theorem place_give_ok {chunk : Chunk} {place : Place} :
    (c.give (.ok chunk) place).2.place = if chunk.isTerminal then .done else place := rfl

theorem takes_give {α : Type} [Request α] {r : α} {phase : Phase} {cont : Continuation}
    {place : Place} {rest : List (Except WireError Chunk)}
    (hrest : rest = if cont = .last then [] else left c.tx place) :
    Takes (c.give (Chunk.ofStep r phase cont) place) (Chunk.ofStep r phase cont :: rest) := by
  cases hstep : Chunk.ofStep r phase cont with
  | error e => exact ⟨rfl, rfl⟩
  | ok chunk =>
    have hlast := (Chunk.ofStep_ok hstep).isTerminal
    refine ⟨rfl, congrArg delivered ?_⟩
    rw [place_give_ok, hlast, hrest]
    cases cont <;> rfl

theorem takes_nextInput (c : Chunker) (i : Nat) :
    Takes (c.nextInput i) (left c.tx (.inputs i)) := by
  simp only [nextInput, left]
  cases hi : c.tx.inputs[i]? with
  | none =>
    rw [List.drop_eq_nil_of_le (List.getElem?_eq_none_iff.1 hi)]
    exact ⟨rfl, rfl⟩
  | some input =>
    obtain ⟨hlt, rfl⟩ := List.getElem?_eq_some_iff.1 hi
    rw [inputChunks_drop hlt]
    refine takes_give ?_
    by_cases hlast : i + 1 = c.tx.inputs.length
    · rw [if_pos hlast, if_pos rfl, List.drop_eq_nil_of_le (Nat.le_of_eq hlast.symm)]
      rfl
    · rw [if_neg hlast, if_neg (by decide), left]

theorem takes_next (c : Chunker) : Takes c.next (left c.tx c.place) := by
  unfold next
  cases hplace : c.place with
  | start => exact takes_give rfl
  | outputs i =>
    dsimp only
    cases hi : c.tx.outputs[i]? with
    | none =>
      rw [left, List.drop_eq_nil_of_le (List.getElem?_eq_none_iff.1 hi)]
      exact c.takes_nextInput 0
    | some output =>
      obtain ⟨hlt, rfl⟩ := List.getElem?_eq_some_iff.1 hi
      rw [left, List.drop_eq_getElem_cons hlt]
      exact takes_give rfl
  | inputs i => exact c.takes_nextInput i
  | done => exact ⟨rfl, by rw [coming, hplace]; rfl⟩

def after : Nat → Chunker → Chunker
  | 0, c => c
  | k + 1, c => after k c.next.2

/-- What a call hands out, by the number of calls before it. -/
def answer (c : Chunker) (k : Nat) : Option (Except ClientError Chunk) := (c.after k).next.1

theorem answer_eq (c : Chunker) (k : Nat) : c.answer k = c.coming[k]? := by
  induction k generalizing c with
  | zero => exact c.takes_next.head.trans List.head?_eq_getElem?
  | succ k ih =>
    refine (ih c.next.2).trans ?_
    rw [c.takes_next.tail, List.getElem?_tail]
    rfl

def items (n : Nat) (c : Chunker) : List (Option (Except ClientError Chunk)) :=
  (c.run n).map Prod.fst

theorem run_eq (n : Nat) (c : Chunker) :
    c.run n = (List.range n).map fun k => (c.answer k, c.after (k + 1)) := by
  induction n generalizing c with
  | zero => rfl
  | succ n ih =>
    rw [List.range_succ_eq_map, List.map_cons, List.map_map]
    exact congrArg (_ :: ·) (ih c.next.2)

theorem items_eq_answers (n : Nat) (c : Chunker) : items n c = (List.range n).map c.answer := by
  rw [items, run_eq, List.map_map]
  rfl

/-- Every call hands out the next of these, and none once they are over. -/
theorem items_eq (n outs ins : Nat) (tx : Transaction) :
    items n ⟨tx, .start, outs, ins⟩ = (List.range n).map fun k => (delivered tx.plan)[k]? := by
  rw [items_eq_answers]
  exact List.map_congr_left fun k _ => answer_eq _ k

theorem mem_items {tx : Transaction} {x : Except ClientError Chunk} :
    (∃ n, some x ∈ items n (ofTransaction tx)) ↔ x ∈ delivered tx.plan := by
  simp only [ofTransaction, items_eq, List.mem_map, List.mem_range]
  rw [List.mem_iff_getElem?]
  constructor
  · rintro ⟨n, k, -, hk⟩
    exact ⟨k, hk⟩
  · rintro ⟨k, hk⟩
    exact ⟨k + 1, k, Nat.lt_succ_self k, hk⟩

def isChunkOf (phase : Phase) : Option (Except ClientError Chunk) → Bool
  | some (.ok chunk) => chunk.phase = phase
  | _ => false

/-- The counts of the second chunker are those of the first with this answer counted. -/
structure Counts (before : Chunker) (answer : Option (Except ClientError Chunk) × Chunker) :
    Prop where
  outputs : answer.2.sentOutputs =
    before.sentOutputs + if isChunkOf .outputs answer.1 then 1 else 0
  inputs : answer.2.sentInputs = before.sentInputs + if isChunkOf .inputs answer.1 then 1 else 0

theorem counts_give (c : Chunker) (x : Except WireError Chunk) (place : Place) :
    Counts c (c.give x place) := by
  cases x with
  | error e => exact ⟨rfl, rfl⟩
  | ok chunk => constructor <;> simp [give, isChunkOf]

theorem counts_nextInput (c : Chunker) (i : Nat) : Counts c (c.nextInput i) := by
  unfold nextInput
  cases c.tx.inputs[i]? with
  | none => exact ⟨rfl, rfl⟩
  | some input => exact c.counts_give _ _

theorem counts_next (c : Chunker) : Counts c c.next := by
  unfold next
  cases c.place with
  | start => exact c.counts_give _ _
  | outputs i =>
    dsimp only
    cases c.tx.outputs[i]? with
    | none => exact c.counts_nextInput 0
    | some output => exact c.counts_give _ _
  | inputs i => exact c.counts_nextInput i
  | done => exact ⟨rfl, rfl⟩

/-- A chunker has counted the chunks of both kinds that it handed out. -/
theorem counts_after (c : Chunker) (k : Nat) :
    (c.after k).sentOutputs = c.sentOutputs + (c.items k).countP (isChunkOf .outputs) ∧
    (c.after k).sentInputs = c.sentInputs + (c.items k).countP (isChunkOf .inputs) := by
  induction k generalizing c with
  | zero => exact ⟨rfl, rfl⟩
  | succ k ih =>
    have hstep := c.counts_next
    have hitems : c.items (k + 1) = c.next.1 :: c.next.2.items k := rfl
    rw [after, (ih c.next.2).1, (ih c.next.2).2, hstep.outputs, hstep.inputs, hitems,
      List.countP_cons, List.countP_cons]
    constructor <;> omega

end Chunker

/-- A step of signing that carries this record: class and instruction, then phase and mark in the
two parameters. -/
def Chunk.tagged (phase : Phase) (cont : Continuation) (record : Bytes)
    (h : record.length ≤ maxPayload) : Chunk :=
  ⟨phase, cont, ⟨0xe0, 0x06, phase.code, cont.code, record, h⟩⟩

namespace Transaction

variable {tx : Transaction}

theorem plan_header (tx : Transaction) :
    tx.plan[0]? = some (.ok (.tagged .start .more tx.header.layout (length_layout_header_le _))) :=
  congrArg some (Chunk.ofStep_eq rfl rfl (length_layout_header_le _) _ _)

theorem plan_output {i : Nat} {o : TransactionOutput} (h : tx.outputs[i]? = some o) :
    tx.plan[1 + i]? = some (Chunk.ofStep o.toRecord .outputs .more) := by
  have hlt := (List.getElem?_eq_some_iff.1 h).1
  rw [plan, Nat.add_comm, List.getElem?_cons_succ,
    List.getElem?_append_left (by rwa [List.length_map]), List.getElem?_map, h]
  rfl

theorem plan_input {i : Nat} {input : TransactionInput} (h : tx.inputs[i]? = some input) :
    tx.plan[1 + tx.outputs.length + i]? = some (Chunk.ofStep input.toRecord .inputs
      (if i + 1 = tx.inputs.length then .last else .more)) := by
  obtain ⟨hlt, rfl⟩ := List.getElem?_eq_some_iff.1 h
  rw [plan, Nat.add_assoc, Nat.add_comm, List.getElem?_cons_succ,
    List.getElem?_append_right (by simp), List.length_map, Nat.add_sub_cancel_left,
    getElem?_inputChunks hlt]

theorem length_plan (tx : Transaction) :
    tx.plan.length = 1 + tx.outputs.length + tx.inputs.length := by
  rw [plan, List.length_cons, List.length_append, List.length_map, length_inputChunks]
  omega

theorem script_le_iff {o : TransactionOutput} :
    o.script.length ≤ 246 ↔ o.serialize.length ≤ maxPayload := by
  rw [length_serialize_output, maxPayload]
  omega

/-- The plan is good up to the first output that is too long. -/
theorem plan_take_ok {i : Nat} (hi : i ≤ tx.outputs.length)
    (h : ∀ o ∈ tx.outputs.take i, o.serialize.length ≤ maxPayload) :
    ∀ x ∈ tx.plan.take (1 + i), ∃ c, x = .ok c := by
  intro x hx
  rw [plan, Nat.add_comm, List.take_succ_cons,
    List.take_append_of_le_length (by rwa [List.length_map]), ← List.map_take] at hx
  rcases List.mem_cons.1 hx with rfl | hx
  · exact chunk_header tx
  · obtain ⟨o, ho, rfl⟩ := List.mem_map.1 hx
    exact chunk_output (script_le_iff.2 (h o ho))

theorem plan_ok (h : ∀ o ∈ tx.outputs, o.serialize.length ≤ maxPayload) :
    ∀ x ∈ tx.plan, ∃ c, x = .ok c := by
  obtain ⟨cs, hcs⟩ := chunks_complete fun o ho => script_le_iff.2 (h o ho)
  rw [chunks_eq_ok.1 hcs]
  rintro x hx
  obtain ⟨c, -, rfl⟩ := List.mem_map.1 hx
  exact ⟨c, rfl⟩

/-- What a chunker answers to any number of calls, told by the transaction. -/
structure HandedOut (tx : Transaction) (c : Chunker) : Prop where
  run : ∀ n, c.run n = (List.range n).map fun k => (c.answer k, c.after (k + 1))
  /-- The first call gives the header. -/
  header : ∃ h, c.answer 0 = some (.ok (.tagged .start .more tx.header.layout h))
  /-- The calls after it give the outputs in order, as long as their records fit a frame. -/
  output : ∀ i o, tx.outputs[i]? = some o →
    (∀ before ∈ tx.outputs.take i, before.serialize.length ≤ maxPayload) →
    ∀ h : o.serialize.length ≤ maxPayload,
      c.answer (1 + i) = some (.ok (.tagged .outputs .more o.serialize h))
  /-- A record that does not fit is an error, once, and nothing comes after it. -/
  overlong : ∀ i o, tx.outputs[i]? = some o →
    (∀ before ∈ tx.outputs.take i, before.serialize.length ≤ maxPayload) →
    maxPayload < o.serialize.length →
      c.answer (1 + i) = some (.error (.wire .invalidLength)) ∧
        ∀ k, 1 + i < k → c.answer k = none
  /-- The calls after those give the inputs in order, and only the last one is marked as last. -/
  input : (∀ o ∈ tx.outputs, o.serialize.length ≤ maxPayload) →
    ∀ i input, tx.inputs[i]? = some input → ∃ h, c.answer (1 + tx.outputs.length + i) =
      some (.ok (.tagged .inputs (if i + 1 = tx.inputs.length then .last else .more)
        input.serialize h))
  /-- Then there is nothing more. -/
  past : ∀ k, 1 + tx.outputs.length + tx.inputs.length ≤ k → c.answer k = none
  /-- The counts are those of the chunks handed out so far. -/
  sentOutputs : ∀ k, (c.after k).sentOutputs = (c.items k).countP (Chunker.isChunkOf .outputs)
  sentInputs : ∀ k, (c.after k).sentInputs = (c.items k).countP (Chunker.isChunkOf .inputs)

theorem answer_ofTransaction (tx : Transaction) (k : Nat) :
    (Chunker.ofTransaction tx).answer k = (Chunker.delivered tx.plan)[k]? :=
  (Chunker.ofTransaction tx).answer_eq k

theorem answer_output {i : Nat} {o : TransactionOutput} (ho : tx.outputs[i]? = some o)
    (hbefore : ∀ before ∈ tx.outputs.take i, before.serialize.length ≤ maxPayload) :
    (Chunker.ofTransaction tx).answer (1 + i) =
      some (ClientError.liftWire (Chunk.ofStep o.toRecord .outputs .more)) := by
  have hi := Nat.le_of_lt (List.getElem?_eq_some_iff.1 ho).1
  rw [answer_ofTransaction, Chunker.delivered_getElem? (plan_take_ok hi hbefore), plan_output ho]
  rfl

/-- Every call to a chunker of a transaction has the one answer that its number calls for: header,
outputs, inputs, each tagged as the step that it is, then nothing; an output that does not fit a
frame is answered with an error and ends it. -/
theorem answers_exact (tx : Transaction) : HandedOut tx (Chunker.ofTransaction tx) where
  run n := (Chunker.ofTransaction tx).run_eq n
  header := by
    refine ⟨length_layout_header_le _, ?_⟩
    rw [answer_ofTransaction, Chunker.delivered_getElem? (by simp), plan_header]
    rfl
  output i o ho hbefore h := by
    rw [answer_output ho hbefore, Chunk.ofStep_eq o.encode_toRecord (encodedLength_output o) h]
    rfl
  overlong i o ho hbefore h := by
    have hlong : 246 < o.script.length :=
      Nat.not_le.1 fun hle => Nat.not_le.2 h (script_le_iff.1 hle)
    have hanswer := answer_output ho hbefore
    have herror := plan_output ho
    rw [chunk_output_error hlong] at hanswer herror
    refine ⟨hanswer, fun k hk => ?_⟩
    rw [answer_ofTransaction, Chunker.delivered_eq_none herror hk]
  input hfit i input hi := by
    refine ⟨length_layout_input_le _, ?_⟩
    rw [answer_ofTransaction,
      Chunker.delivered_getElem? fun x hx => plan_ok hfit x (List.mem_of_mem_take hx),
      plan_input hi, Chunk.ofStep_eq rfl rfl (length_layout_input_le _)]
    rfl
  past k hk := by
    rw [answer_ofTransaction]
    refine List.getElem?_eq_none ((Chunker.length_delivered_le _).trans ?_)
    rwa [length_plan]
  sentOutputs k := ((Chunker.ofTransaction tx).counts_after k).1.trans (Nat.zero_add _)
  sentInputs k := ((Chunker.ofTransaction tx).counts_after k).2.trans (Nat.zero_add _)

end Transaction

namespace ChunkerExample

def received : TransactionInput := ⟨9, Block.zero 32, 0, 0, 0, none⟩

def returned : TransactionInput := ⟨7, Block.zero 32, 1, 4, 1, none⟩

def fitting : TransactionOutput := ⟨8, [0x53, 0x54, 0x55], by decide⟩

/-- The value and the length take nine bytes of a frame, so this script has one byte too many. -/
def overlong : TransactionOutput :=
  ⟨8, List.replicate 247 0, by rw [List.length_replicate]; decide⟩

def tx (outputs : List TransactionOutput)
    (h : Transaction.InBounds 1 [received, returned] outputs := by decide) : Transaction :=
  .ofInBounds 1 [received, returned] outputs none h

/-- The second of the outputs is too long. -/
def broken : Chunker := .ofTransaction (tx [fitting, overlong])

def whole : Chunker := .ofTransaction (tx [fitting])

end ChunkerExample

open ChunkerExample Transaction in
/-- The second output of one transaction is refused and not counted; both inputs of the other are
handed out, and only the second is marked. -/
theorem answers_exact_second_overlong :
    ((∃ h, broken.answer 1 = some (.ok (.tagged .outputs .more fitting.serialize h))) ∧
      broken.answer 2 = some (.error (.wire .invalidLength)) ∧ broken.answer 3 = none ∧
      (broken.after 3).sentOutputs = 1) ∧
    ((∃ h, whole.answer 2 = some (.ok (.tagged .inputs .more received.serialize h))) ∧
      (∃ h, whole.answer 3 = some (.ok (.tagged .inputs .last returned.serialize h))) ∧
      whole.answer 4 = none) := by
  have hfits : fitting.serialize.length ≤ maxPayload := by decide
  have hlong : maxPayload < overlong.serialize.length := by
    rw [length_serialize_output, overlong, List.length_replicate]
    decide
  have hbroken : HandedOut _ broken := answers_exact (tx [fitting, overlong])
  have hwhole : HandedOut _ whole := answers_exact (tx [fitting])
  obtain ⟨_, hzero⟩ := hbroken.header
  have hone := hbroken.output 0 fitting rfl nofun hfits
  obtain ⟨htwo, hafter⟩ := hbroken.overlong 1 overlong rfl (by simpa [tx] using hfits) hlong
  have hcount : broken.items 3 = [broken.answer 0, broken.answer (1 + 0), broken.answer (1 + 1)] :=
    rfl
  have hall : ∀ o ∈ [fitting], o.serialize.length ≤ maxPayload := by simpa using hfits
  refine ⟨⟨⟨_, hone⟩, htwo, hafter 3 (by decide), ?_⟩, hwhole.input hall 0 _ rfl,
    hwhole.input hall 1 _ rfl, hwhole.past 4 (Nat.le_refl 4)⟩
  rw [hbroken.sentOutputs, hcount, hzero, hone, htwo]
  rfl

end HardwareSigner
