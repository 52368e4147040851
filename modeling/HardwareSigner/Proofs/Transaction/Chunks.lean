import HardwareSigner.Transaction.Chunk
import HardwareSigner.Proofs.Transaction.Serial

/-! The pieces in which a transaction is sent. `Framed` is the shape of them: the header, the
outputs, the inputs, each in a frame of its own, and only the last one marked as last. Joined, the
pieces are the serial form; and the first piece being the header, there is no second way to read
them. -/

namespace HardwareSigner

namespace Frame

variable {α : Type} [Request α] {r : α} {p1 p2 : UInt8} {f : Frame}

theorem ofRequest_ok (h : ofRequest r p1 p2 = .ok f) :
    Record.encode r = .ok f.data ∧ f.cla = Request.cla α ∧ f.ins = Request.ins α ∧
      f.p1 = p1 ∧ f.p2 = p2 := by
  obtain ⟨n, -, h⟩ := bind_eq_ok.1 h
  split at h
  · cases h
  obtain ⟨data, hdata, h⟩ := bind_eq_ok.1 h
  unfold ofParts at h
  split at h
  · cases h
    exact ⟨hdata, rfl, rfl, rfl, rfl⟩
  · cases h

theorem ofRequest_eq {data : Bytes} (hdata : Record.encode r = .ok data)
    (hn : Record.encodedLength r = .ok data.length) (hlen : data.length ≤ maxPayload)
    (p1 p2 : UInt8) :
    ofRequest r p1 p2 = .ok ⟨Request.cla α, Request.ins α, p1, p2, data, hlen⟩ := by
  refine bind_eq_ok.2 ⟨_, hn, ?_⟩
  rw [if_neg (Nat.not_lt.2 hlen)]
  refine bind_eq_ok.2 ⟨data, hdata, ?_⟩
  unfold ofParts
  rw [dif_pos hlen]

theorem ofRequest_complete {data : Bytes} (hdata : Record.encode r = .ok data)
    (hn : Record.encodedLength r = .ok data.length) (hlen : data.length ≤ maxPayload)
    (p1 p2 : UInt8) : ∃ f, ofRequest r p1 p2 = .ok f :=
  ⟨_, ofRequest_eq hdata hn hlen p1 p2⟩

end Frame

namespace Chunk

variable {α : Type} [Request α] {r : α} {phase : Phase} {cont : Continuation} {c : Chunk}

/-- The chunk is the frame of this record, at this place in the exchange. -/
structure Carries (c : Chunk) (r : α) (phase : Phase) (cont : Continuation) : Prop where
  data : Record.encode r = .ok c.frame.data
  phase_eq : c.phase = phase
  continuation_eq : c.continuation = cont
  cla : c.frame.cla = Request.cla α
  ins : c.frame.ins = Request.ins α
  p1 : c.frame.p1 = phase.code
  p2 : c.frame.p2 = cont.code

theorem ofStep_ok (h : ofStep r phase cont = .ok c) : c.Carries r phase cont := by
  obtain ⟨f, hf, h⟩ := bind_eq_ok.1 h
  cases h
  obtain ⟨hdata, hcla, hins, hp1, hp2⟩ := Frame.ofRequest_ok hf
  exact ⟨hdata, rfl, rfl, hcla, hins, hp1, hp2⟩

theorem ofStep_eq {data : Bytes} (hdata : Record.encode r = .ok data)
    (hn : Record.encodedLength r = .ok data.length) (hlen : data.length ≤ maxPayload)
    (phase : Phase) (cont : Continuation) :
    ofStep r phase cont =
      .ok ⟨phase, cont, ⟨Request.cla α, Request.ins α, phase.code, cont.code, data, hlen⟩⟩ :=
  bind_eq_ok.2 ⟨_, Frame.ofRequest_eq hdata hn hlen phase.code cont.code, rfl⟩

theorem ofStep_complete {data : Bytes} (hdata : Record.encode r = .ok data)
    (hn : Record.encodedLength r = .ok data.length) (hlen : data.length ≤ maxPayload)
    (phase : Phase) (cont : Continuation) : ∃ c, ofStep r phase cont = .ok c :=
  ⟨_, ofStep_eq hdata hn hlen phase cont⟩

theorem Carries.isTerminal (h : c.Carries r phase cont) : c.isTerminal = (cont == .last) := by
  unfold Chunk.isTerminal
  rw [h.continuation_eq]
  cases cont <;> rfl

theorem Carries.phase?_eq (h : c.Carries r phase cont) : c.frame.phase? = some phase := by
  rw [Frame.phase?, h.p1, Phase.ofCode?_code]

theorem Carries.continuation?_eq (h : c.Carries r phase cont) :
    c.frame.continuation? = some cont := by
  rw [Frame.continuation?, h.p2, Continuation.ofCode?_code]

theorem Carries.header {h : TxHeader} (hc : c.Carries h phase cont) : c.frame.data = h.layout :=
  (Except.ok.inj hc.data).symm

theorem Carries.output {o : TransactionOutput} (hc : c.Carries o.toRecord phase cont) :
    c.frame.data = o.serialize :=
  Except.ok.inj (hc.data.symm.trans o.encode_toRecord)

theorem Carries.input {i : TransactionInput} (hc : c.Carries i.toRecord phase cont) :
    c.frame.data = i.serialize :=
  (Except.ok.inj hc.data).symm

/-- The last chunk, and no other, ends the exchange. -/
inductive Ended : List Chunk → Prop
  | last {c : Chunk} (hc : c.isTerminal = true) : Ended [c]
  | more {c : Chunk} {cs : List Chunk} (hc : c.isTerminal = false) (h : Ended cs) : Ended (c :: cs)

end Chunk

namespace Transaction

variable {tx : Transaction} {cs : List Chunk}

/-- One frame for each input, the last one marked. -/
inductive InputsFramed : List TransactionInput → List Chunk → Prop
  | last {i : TransactionInput} {c : Chunk} (hc : c.Carries i.toRecord .inputs .last) :
      InputsFramed [i] [c]
  | more {i : TransactionInput} {c : Chunk} {inputs : List TransactionInput} {cs : List Chunk}
      (hc : c.Carries i.toRecord .inputs .more) (h : InputsFramed inputs cs) :
      InputsFramed (i :: inputs) (c :: cs)

/-- The frames of a whole exchange. -/
inductive Framed (tx : Transaction) : List Chunk → Prop
  | intro {start : Chunk} {outs ins : List Chunk} (hstart : start.Carries tx.header .start .more)
      (houts : List.Forall₂ (fun o c => c.Carries o.toRecord .outputs .more) tx.outputs outs)
      (hins : InputsFramed tx.inputs ins) : Framed tx (start :: (outs ++ ins))

theorem InputsFramed.ended {inputs : List TransactionInput} (h : InputsFramed inputs cs) :
    Chunk.Ended cs := by
  induction h with
  | last hc => exact .last hc.isTerminal
  | more hc _ ih => exact .more hc.isTerminal ih

theorem ended_of_outputs {outputs : List TransactionOutput} {outs : List Chunk}
    (houts : List.Forall₂ (fun o c => c.Carries o.toRecord .outputs .more) outputs outs)
    (h : Chunk.Ended cs) : Chunk.Ended (outs ++ cs) := by
  induction houts with
  | nil => exact h
  | cons hc _ ih => exact .more hc.isTerminal ih

theorem Framed.ended (h : tx.Framed cs) : Chunk.Ended cs := by
  obtain ⟨hstart, houts, hins⟩ := h
  exact .more hstart.isTerminal (ended_of_outputs houts hins.ended)

theorem chunks_eq_ok : tx.chunks = .ok cs ↔ tx.plan = cs.map .ok := by
  unfold chunks
  rw [mapM_eq_ok]
  simp only [liftWire_eq_ok]
  rw [← List.forall₂_eq_eq_eq, List.forall₂_map_right_iff]

theorem exists_map_ok {l : List (Except WireError Chunk)} (h : ∀ x ∈ l, ∃ c, x = .ok c) :
    ∃ cs : List Chunk, l = cs.map .ok := by
  induction l with
  | nil => exact ⟨[], rfl⟩
  | cons x l ih =>
    obtain ⟨c, rfl⟩ := h x List.mem_cons_self
    obtain ⟨cs, rfl⟩ := ih fun y hy => h y (List.mem_cons_of_mem _ hy)
    exact ⟨c :: cs, rfl⟩

theorem mem_inputChunks {inputs : List TransactionInput} {x : Except WireError Chunk}
    (hx : x ∈ inputChunks inputs) :
    ∃ (i : TransactionInput) (cont : Continuation), x = Chunk.ofStep i.toRecord .inputs cont := by
  induction inputs with
  | nil => cases hx
  | cons i rest ih =>
    cases rest with
    | nil => exact ⟨i, .last, List.mem_singleton.1 hx⟩
    | cons j rest =>
      rcases List.mem_cons.1 hx with rfl | hx
      · exact ⟨i, .more, rfl⟩
      · exact ih hx

theorem inputChunks_drop {inputs : List TransactionInput} {i : Nat} (hi : i < inputs.length) :
    inputChunks (inputs.drop i) =
      Chunk.ofStep inputs[i].toRecord .inputs (if i + 1 = inputs.length then .last else .more) ::
        inputChunks (inputs.drop (i + 1)) := by
  rw [List.drop_eq_getElem_cons hi]
  by_cases hlast : i + 1 = inputs.length
  · rw [if_pos hlast, List.drop_eq_nil_of_le (Nat.le_of_eq hlast.symm)]
    rfl
  · rw [if_neg hlast, List.drop_eq_getElem_cons (Nat.lt_of_le_of_ne hi hlast)]
    rfl

theorem getElem?_inputChunks {inputs : List TransactionInput} {i : Nat} (hi : i < inputs.length) :
    (inputChunks inputs)[i]? = some (Chunk.ofStep inputs[i].toRecord .inputs
      (if i + 1 = inputs.length then .last else .more)) := by
  induction inputs generalizing i with
  | nil => cases hi
  | cons input rest ih =>
    cases rest with
    | nil =>
      obtain rfl := Nat.lt_one_iff.1 hi
      rfl
    | cons next rest =>
      cases i with
      | zero => rfl
      | succ i => simpa [inputChunks] using ih (Nat.lt_of_succ_lt_succ hi)

theorem length_inputChunks (inputs : List TransactionInput) :
    (inputChunks inputs).length = inputs.length := by
  induction inputs with
  | nil => rfl
  | cons i rest ih =>
    cases rest with
    | nil => rfl
    | cons j rest => exact congrArg Nat.succ ih

theorem length_serialize_output (o : TransactionOutput) :
    o.serialize.length = o.script.length + 9 := by
  simp [TransactionOutput.serialize]
  omega

theorem length_layout_input (i : TxInput) : i.layout.length = 49 := by
  simp [TxInput.layout, Block.length_bytes]

theorem length_layout_input_le (i : TxInput) : i.layout.length ≤ maxPayload := by
  rw [length_layout_input]
  decide

theorem length_layout_header_le (h : TxHeader) : h.layout.length ≤ maxPayload := by
  rw [TxHeader.length_layout]
  split <;> decide

theorem chunk_header (tx : Transaction) : ∃ c, Chunk.ofStep tx.header .start .more = .ok c :=
  Chunk.ofStep_complete rfl rfl (length_layout_header_le _) _ _

theorem encodedLength_output (o : TransactionOutput) :
    Record.encodedLength o.toRecord = .ok o.serialize.length := by
  change o.toRecord.encode.map List.length = _
  rw [o.encode_toRecord]
  rfl

/-- A script that leaves room for the value and its own length has a frame. -/
theorem chunk_output {o : TransactionOutput} (h : o.script.length ≤ 246) :
    ∃ c, Chunk.ofStep o.toRecord .outputs .more = .ok c := by
  refine Chunk.ofStep_complete o.encode_toRecord (encodedLength_output o) ?_ _ _
  rw [length_serialize_output, maxPayload]
  omega

/-- The value and the length leave a script this much of a frame. -/
theorem chunk_output_error {o : TransactionOutput} (h : 246 < o.script.length) :
    Chunk.ofStep o.toRecord .outputs .more = .error .invalidLength := by
  have hn := encodedLength_output o
  have hlen : maxPayload < o.serialize.length := by
    rw [length_serialize_output, maxPayload]
    omega
  rw [Chunk.ofStep, Frame.ofStep, Frame.ofRequest, hn]
  simp [bind, Except.bind, hlen, throw, throwThe, MonadExceptOf.throw]

/-- Scripts that leave room for the value and their own length have a frame, and so has all else
in a transaction. -/
theorem chunks_complete (h : ∀ o ∈ tx.outputs, o.script.length ≤ 246) :
    ∃ cs, tx.chunks = .ok cs := by
  have hall : ∀ x ∈ tx.plan, ∃ c, x = .ok c := by
    intro x hx
    rcases List.mem_cons.1 hx with rfl | hx
    · exact chunk_header tx
    rcases List.mem_append.1 hx with hx | hx
    · obtain ⟨o, ho, rfl⟩ := List.mem_map.1 hx
      exact chunk_output (h o ho)
    · obtain ⟨i, cont, rfl⟩ := mem_inputChunks hx
      exact Chunk.ofStep_complete rfl rfl (length_layout_input_le _) _ _
  obtain ⟨cs, hcs⟩ := exists_map_ok hall
  exact ⟨cs, chunks_eq_ok.2 hcs⟩

theorem inputsFramed_of_inputChunks {inputs : List TransactionInput} (hne : inputs ≠ [])
    (h : inputChunks inputs = cs.map .ok) : InputsFramed inputs cs := by
  induction inputs generalizing cs with
  | nil => exact absurd rfl hne
  | cons i rest ih =>
    cases rest with
    | nil =>
      obtain ⟨c, cs, rfl, hc, hcs⟩ := List.map_eq_cons_iff.1 h.symm
      obtain rfl := List.map_eq_nil_iff.1 hcs
      exact .last (Chunk.ofStep_ok hc.symm)
    | cons j rest =>
      obtain ⟨c, cs, rfl, hc, hcs⟩ := List.map_eq_cons_iff.1 h.symm
      exact .more (Chunk.ofStep_ok hc.symm) (ih (List.cons_ne_nil j rest) hcs.symm)

theorem framed_of_chunks (h : tx.chunks = .ok cs) : tx.Framed cs := by
  have hplan := chunks_eq_ok.1 h
  obtain ⟨start, tail, rfl, hstart, htail⟩ := List.map_eq_cons_iff.1 hplan.symm
  obtain ⟨outs, ins, rfl, houts, hins⟩ := List.map_eq_append_iff.1 htail
  refine .intro (Chunk.ofStep_ok hstart.symm) ?_
    (inputsFramed_of_inputChunks tx.inputs_ne hins.symm)
  have hall : List.Forall₂ (fun o c => Chunk.ofStep o.toRecord .outputs .more = .ok c)
      tx.outputs outs := by
    rw [← List.forall₂_map_left_iff (f := fun o : TransactionOutput =>
      Chunk.ofStep o.toRecord .outputs .more) (R := fun x c => x = .ok c),
      ← List.forall₂_map_right_iff (f := Except.ok) (R := fun x y => x = y),
      List.forall₂_eq_eq_eq]
    exact houts.symm
  exact hall.imp fun o c hc => Chunk.ofStep_ok hc

theorem InputsFramed.data {inputs : List TransactionInput} (h : InputsFramed inputs cs) :
    cs.map (fun c => c.frame.data) = inputs.map TransactionInput.serialize := by
  induction h with
  | last hc => rw [List.map_singleton, List.map_singleton, hc.input]
  | more hc h ih => rw [List.map_cons, List.map_cons, hc.input, ih]

theorem data_of_outputs {outputs : List TransactionOutput}
    (h : List.Forall₂ (fun o c => c.Carries o.toRecord .outputs .more) outputs cs) :
    cs.map (fun c => c.frame.data) = outputs.map TransactionOutput.serialize := by
  induction h with
  | nil => rfl
  | cons hc _ ih => rw [List.map_cons, List.map_cons, hc.output, ih]

theorem Framed.data (h : tx.Framed cs) :
    cs.map (fun c => c.frame.data) = tx.header.layout ::
      (tx.outputs.map TransactionOutput.serialize ++ tx.inputs.map TransactionInput.serialize) := by
  obtain ⟨hstart, houts, hins⟩ := h
  rw [List.map_cons, List.map_append, hstart.header, data_of_outputs houts, hins.data]

theorem Framed.reassemble (h : tx.Framed cs) : Chunk.reassemble cs = tx.serialize := by
  rw [Chunk.reassemble, List.flatMap_def, h.data, serialize_eq, List.flatten_cons,
    List.flatten_append]
  rfl

/-- Cutting a transaction into pieces and joining them are inverse to each other: the pieces are
the serial form and are read as the transaction they came from, but for keys; and pieces that are
read as a transaction start with its header and are its serial form. -/
theorem chunks_inverse :
    (∀ (tx : Transaction) (cs : List Chunk), tx.chunks = .ok cs →
      Chunk.reassemble cs = tx.serialize ∧
        ofPayloads (cs.map fun c => c.frame.data) = .ok tx.clearKeys) ∧
    ∀ (ps : List Bytes) (tx : Transaction), ofPayloads ps = .ok tx →
      (∃ rest, ps = tx.header.layout :: rest) ∧ ps.flatten = tx.serialize := by
  constructor
  · intro tx cs h
    have hf := framed_of_chunks h
    have hbody : (tx.outputs.map TransactionOutput.serialize ++
        tx.inputs.map TransactionInput.serialize).flatten = tx.clearKeys.body := by
      rw [body_clearKeys, List.flatten_append]
      rfl
    refine ⟨hf.reassemble, ofPayloads_eq_ok.2 ⟨_, ?_, hbody, tx.keyless_clearKeys⟩⟩
    rw [hf.data, header_clearKeys]
  · intro ps tx h
    obtain ⟨rest, rfl, hbody, -⟩ := ofPayloads_eq_ok.1 h
    refine ⟨⟨rest, rfl⟩, ?_⟩
    rw [List.flatten_cons, hbody, serialize_eq]

end Transaction

open SerialExample Transaction in
/-- Behind the header it does not matter where the pieces are cut. -/
theorem chunks_inverse_three_pieces : ∃ cs, tx.chunks = .ok cs ∧
    Chunk.reassemble cs = tx.serialize ∧
    ofPayloads (cs.map fun c => c.frame.data) = .ok tx.clearKeys ∧
    ofPayloads [tx.header.layout, tx.body.take 7, tx.body.drop 7] = .ok tx.clearKeys ∧
    [tx.header.layout, tx.body.take 7, tx.body.drop 7].flatten = tx.clearKeys.serialize := by
  obtain ⟨cs, hcs⟩ : ∃ cs, tx.chunks = .ok cs := chunks_complete (by decide)
  have hpieces : ofPayloads [tx.header.layout, tx.body.take 7, tx.body.drop 7] =
      .ok tx.clearKeys := by decide
  obtain ⟨hjoin, hback⟩ := chunks_inverse.1 tx cs hcs
  exact ⟨cs, hcs, hjoin, hback, hpieces, (chunks_inverse.2 _ _ hpieces).2⟩

end HardwareSigner
