import HardwareSigner.Proofs.Device.Release
import HardwareSigner.Proofs.Device.Staged
import HardwareSigner.Proofs.Transaction.Chunks
import HardwareSigner.Proofs.Transaction.Digest
import HardwareSigner.Proofs.Wire.Records

/-! Which transactions a device takes. The pieces that a wallet cuts a transaction into arrive at a
device in whatever state; the header starts the exchange anew, so what was there before does not
matter. Either every piece is taken and the operator is asked, or one is refused as not parsing and
the device is as new. Which of both happens is said of the transaction alone. -/

namespace HardwareSigner

/-- What a device asks of a transaction: few enough outputs and inputs, known kinds of addresses,
inputs that cover outputs, and change in the second output, to the key of the declared address. -/
structure Transaction.Signable {σ : Type} [KeySource σ] (tx : Transaction)
    (system : SignatureSystem) (keys : σ) : Prop where
  outputs_le : tx.outputs.length ≤ 2
  inputs_le : tx.inputs.length ≤ 15
  types : ∀ i ∈ tx.inputs, i.addressType ≤ 1
  covered : tx.outputTotal ≤ tx.inputTotal
  change : ∀ c, tx.change = some c → tx.outputs.length = 2 ∧ c.addressType ≤ 1 ∧
    ∃ (k : DerivedKey) (o : TransactionOutput),
      KeySource.addressKey keys c.addressType c.addressIndex = some k ∧
      tx.outputs[1]? = some o ∧ o.script = Device.p2pkScript (system.xOnly k.secret)

/-- The answer to a piece that is taken: the last one waits for the operator. -/
def Chunk.granted (c : Chunk) : Except StatusWord Output :=
  if c.isTerminal then .ok .pending else .ok (.data [])

namespace StagedTx

/-- Inputs cover outputs, and the second output pays the declared change address. -/
structure Balanced {σ : Type} [KeySource σ] (tx : StagedTx) (system : SignatureSystem)
    (keys : σ) : Prop where
  covered : tx.outputTotal ≤ tx.inputTotal
  change : ∀ c, tx.header.change = some c → ∃ (k : DerivedKey) (o : TxOutput),
    KeySource.addressKey keys c.addressType c.addressIndex = some k ∧
    tx.outputs[1]? = some o ∧ o.script = Device.p2pkScript (system.xOnly k.secret)

variable {tx : StagedTx}

theorem start_layout (h : TxHeader) :
    start h.layout = if accepts h then .ok ⟨h, [], []⟩ else .error .txParsingFail := by
  unfold start
  rw [TxHeader.decodeAll_eq_ok.2 rfl]

theorem pushOutput_serialize (hin : tx.inputs = [])
    (hroom : tx.outputs.length < tx.header.numOutputs.toNat) (o : TransactionOutput) :
    tx.pushOutput o.serialize = .ok { tx with outputs := tx.outputs ++ [o.toRecord] } := by
  have hread : TxOutput.read.decodeAll o.serialize = .ok o.toRecord :=
    Reader.decodeAll_eq_ok.2 ((TxOutput.exact_read _ _ _).2
      ⟨o.length_script, by rw [List.append_nil, o.serialize_eq_layout]⟩)
  unfold pushOutput
  rw [if_neg (by simp [hin]), if_neg (Nat.not_le.2 hroom), hread]

theorem pushInput_serialize (hout : tx.outputs.length = tx.header.numOutputs.toNat)
    (hroom : tx.inputs.length < tx.header.numInputs.toNat) (i : TransactionInput) (last : Bool)
    (hlast : last = true → tx.inputs.length + 1 = tx.header.numInputs.toNat) :
    tx.pushInput i.serialize last =
      if i.addressType ≤ 1 then .ok { tx with inputs := tx.inputs ++ [i.toRecord] }
      else .error .txParsingFail := by
  have hread : TxInput.read.decodeAll i.serialize = .ok i.toRecord :=
    Reader.decodeAll_eq_ok.2 ((TxInput.exact_read _ _ _).2
      ⟨trivial, by rw [List.append_nil]; rfl⟩)
  unfold pushInput
  rw [if_neg (not_not.2 hout), if_neg (Nat.not_le.2 hroom), hread]
  change (if 1 < i.addressType then _ else _) = _
  by_cases htype : i.addressType ≤ 1
  · rw [if_pos htype, if_neg (UInt8.not_lt.2 htype), if_neg]
    simpa using hlast
  · rw [if_neg htype, if_pos (UInt8.not_le.1 htype)]

theorem checkFee_eq (tx : StagedTx) :
    tx.checkFee = if tx.outputTotal ≤ tx.inputTotal then .ok () else .error .txParsingFail := rfl

theorem checkChange_cases (tx : StagedTx) (script : Bytes) :
    (∃ o, tx.outputs[1]? = some o ∧ o.script = script) ∧ tx.checkChange script = .ok () ∨
      (¬∃ o, tx.outputs[1]? = some o ∧ o.script = script) ∧
        tx.checkChange script = .error .txParsingFail := by
  unfold checkChange
  cases tx.outputs[1]? with
  | none => exact .inr ⟨by simp, rfl⟩
  | some o =>
    by_cases ho : o.script = script
    · exact .inl ⟨⟨o, rfl, ho⟩, if_pos ho⟩
    · exact .inr ⟨by simpa using ho, if_neg ho⟩

end StagedTx

namespace Transaction

variable {tx : Transaction}

@[simp] theorem staged_header (tx : Transaction) : tx.staged.header = tx.header := rfl

@[simp] theorem staged_outputTotal (tx : Transaction) :
    tx.staged.outputTotal = tx.outputTotal := by
  simp only [staged, StagedTx.outputTotal, outputTotal, List.foldl_map, TransactionOutput.toRecord]

@[simp] theorem staged_inputTotal (tx : Transaction) : tx.staged.inputTotal = tx.inputTotal := by
  simp only [staged, StagedTx.inputTotal, inputTotal, List.foldl_map, TransactionInput.toRecord]

theorem accepts_header : StagedTx.accepts tx.header = true ↔
    tx.outputs.length ≤ 2 ∧ tx.inputs.length ≤ 15 ∧
      ∀ c, tx.change = some c → tx.outputs.length = 2 ∧ c.addressType ≤ 1 := by
  have houts := List.length_pos_iff.2 tx.outputs_ne
  have hins := List.length_pos_iff.2 tx.inputs_ne
  rw [StagedTx.accepts_iff]
  constructor
  · intro h
    refine ⟨?_, ?_, ?_⟩
    · simpa using h.outputs.2
    · simpa using h.inputs.2
    · intro c hc
      have := h.change c hc
      rwa [header_numOutputs] at this
  · rintro ⟨ho, hi, hc⟩
    refine ⟨tx.version_le, ?_, ?_, ?_⟩
    · rw [header_numOutputs]
      exact ⟨houts, ho⟩
    · rw [header_numInputs]
      exact ⟨hins, hi⟩
    · intro c hsome
      rw [header_numOutputs]
      exact hc c hsome

theorem signable_iff_staged {σ : Type} [KeySource σ] {system : SignatureSystem} {keys : σ} :
    tx.Signable system keys ↔ StagedTx.accepts tx.header = true ∧
      (∀ i ∈ tx.inputs, i.addressType ≤ 1) ∧ tx.staged.Balanced system keys := by
  rw [accepts_header]
  constructor
  · intro h
    refine ⟨⟨h.outputs_le, h.inputs_le, fun c hc => ?_⟩, h.types, ?_, fun c hc => ?_⟩
    · obtain ⟨hlen, htype, -⟩ := h.change c hc
      exact ⟨hlen, htype⟩
    · simpa using h.covered
    · obtain ⟨-, -, k, o, hk, ho, hscript⟩ := h.change c hc
      refine ⟨k, o.toRecord, hk, ?_, hscript⟩
      simp [staged, ho]
  · rintro ⟨⟨houts, hins, hchange⟩, htypes, hbalanced⟩
    refine ⟨houts, hins, htypes, by simpa using hbalanced.covered, fun c hc => ?_⟩
    obtain ⟨k, o, hk, ho, hscript⟩ := hbalanced.change c hc
    obtain ⟨o', ho', rfl⟩ : ∃ o', tx.outputs[1]? = some o' ∧ o'.toRecord = o := by
      simpa [staged] using ho
    exact ⟨(hchange c hc).1, (hchange c hc).2, k, o', hk, ho', hscript⟩

theorem Signable.reviewed {σ : Type} [KeySource σ] {system : SignatureSystem} {keys : σ}
    (h : tx.Signable system keys) : tx.staged.Reviewed system keys := by
  obtain ⟨haccepts, htypes, hbalanced⟩ := signable_iff_staged.1 h
  have hheader := StagedTx.accepts_iff.1 haccepts
  have houts : tx.staged.outputs.length = tx.header.numOutputs.toNat := by simp [staged]
  have hins : tx.staged.inputs.length = tx.header.numInputs.toNat := by simp [staged]
  have hpartial : tx.staged.Partial := by
    refine ⟨hheader, houts.le, hins.le, fun _ => houts, ?_⟩
    intro i hi
    obtain ⟨j, hj, rfl⟩ := List.mem_map.1 hi
    exact htypes j hj
  refine ⟨hpartial, houts, hins, hbalanced.covered, ?_⟩
  intro c hc
  obtain ⟨k, o, hkey, ho, hscript⟩ := hbalanced.change c hc
  exact ⟨keys, k, o, .refl _, hkey, ho, hscript⟩

/-- With a source that has the same key for an address at any time, it does not matter when a
transaction is judged. -/
theorem Signable.asked {σ : Type} [KeySource σ] {system : SignatureSystem} {keys keys' : σ}
    {key : UInt8 → UInt32 → DerivedKey} (h : tx.Signable system keys)
    (hkeys : KeySource.Gives keys key) (hasked : KeySource.Asked keys keys') :
    tx.Signable system keys' := by
  refine { h with change := fun c hc => ?_ }
  obtain ⟨hlen, htype, k, o, hkey, ho⟩ := h.change c hc
  have hnow := hkeys keys (.refl _) c.addressType htype c.addressIndex
  obtain rfl := Option.some.inj (hkey.symm.trans hnow)
  exact ⟨hlen, htype, _, o, hkeys keys' hasked c.addressType htype c.addressIndex, ho⟩

end Transaction

namespace Engine

variable {σ : Type} [KeySource σ] {e e' : Engine σ} {apdu : Bytes} {rest : List Bytes}

/-- Takes frames one after the other up to the first that is refused: the answers, and the engine
after them. -/
def feed (e : Engine σ) : List Bytes → List (Except StatusWord Output) × Engine σ
  | [] => ([], e)
  | apdu :: rest =>
    match e.update apdu with
    | (.error s, e) => ([.error s], e)
    | (.ok out, e) =>
      let (answers, e) := e.feed rest
      (.ok out :: answers, e)

theorem feed_cons_ok {out : Output} (h : e.update apdu = (.ok out, e')) :
    e.feed (apdu :: rest) = (.ok out :: (e'.feed rest).1, (e'.feed rest).2) := by
  simp only [feed, h]

theorem feed_cons_error {s : StatusWord} (h : e.update apdu = (.error s, e')) :
    e.feed (apdu :: rest) = ([.error s], e') := by
  simp only [feed, h]

theorem feed_cons_eq {out : Output} {answers : List (Except StatusWord Output)}
    (h : e.feed (apdu :: rest) = (.ok out :: answers, e')) :
    ∃ e₁, e.update apdu = (.ok out, e₁) ∧ e₁.feed rest = (answers, e') := by
  rcases hupdate : e.update apdu with ⟨s | out', e₁⟩
  · rw [feed_cons_error hupdate] at h
    cases h
  · rw [feed_cons_ok hupdate] at h
    cases h
    exact ⟨e₁, rfl, rfl⟩

/-- The engine in the middle of this transaction. -/
def holding (e : Engine σ) (s : StagedTx) : Engine σ := { e with activity := .staging s }

/-- All pieces are taken, and the operator is asked about this transaction. -/
def Grants (e : Engine σ) (cs : List Chunk) (tx : StagedTx) : Prop :=
  ∃ source, KeySource.Asked e.keys source ∧ e.feed (cs.map fun c => c.frame.layout) =
    (cs.map Chunk.granted, ⟨e.system, e.config, source, .txPending tx⟩)

/-- Some pieces are taken, then one is refused as not parsing, and the device is as new. -/
def Rejects (e : Engine σ) (cs : List Chunk) : Prop :=
  ∃ n source, KeySource.Asked e.keys source ∧ e.feed (cs.map fun c => c.frame.layout) =
    (List.replicate n (.ok (.data [])) ++ [.error .txParsingFail],
      new e.system e.config source)

variable {c : Chunk} {cs : List Chunk} {s tx : StagedTx}

theorem Grants.cons (h : e.update c.frame.layout = (.ok (.data []), e.holding s))
    (hc : c.isTerminal = false) (hg : (e.holding s).Grants cs tx) : e.Grants (c :: cs) tx := by
  obtain ⟨source, hasked, hfeed⟩ := hg
  refine ⟨source, hasked, ?_⟩
  rw [List.map_cons, feed_cons_ok h, hfeed, List.map_cons, Chunk.granted, if_neg (by simp [hc])]
  rfl

theorem Rejects.cons (h : e.update c.frame.layout = (.ok (.data []), e.holding s))
    (hr : (e.holding s).Rejects cs) : e.Rejects (c :: cs) := by
  obtain ⟨n, source, hasked, hfeed⟩ := hr
  refine ⟨n + 1, source, hasked, ?_⟩
  rw [List.map_cons, feed_cons_ok h, hfeed, List.replicate_succ, List.cons_append]
  rfl

theorem rejects_of_update {source : σ} (hasked : KeySource.Asked e.keys source)
    (h : e.update c.frame.layout = (.error .txParsingFail, new e.system e.config source)) :
    e.Rejects (c :: cs) := by
  refine ⟨0, source, hasked, ?_⟩
  rw [List.map_cons, feed_cons_error h]
  rfl

theorem update_of_command {f : Frame} {i : Instruction} (hcla : f.cla = appClass)
    (hins : f.ins = i.code) : e.update f.layout = e.command f i := by
  unfold update
  rw [Frame.decodeAll_layout]
  simp only [hcla, hins, if_true, Instruction.ofCode?_code]

theorem update_of_signTx {f : Frame} (hcla : f.cla = appClass)
    (hins : f.ins = Instruction.signTx.code) : e.update f.layout = e.signTx f :=
  update_of_command hcla hins

theorem update_header {h : TxHeader} (hc : c.Carries h .start .more) :
    e.update c.frame.layout = if StagedTx.accepts h then (.ok (.data []), e.holding ⟨h, [], []⟩)
      else (.error .txParsingFail, new e.system e.config e.keys) := by
  have hdata : c.frame.data.isEmpty = false := by
    rw [hc.header]
    rfl
  have hupdate : e.update c.frame.layout = dropOnError (e.stageStart h.layout) := by
    rw [update_of_signTx hc.cla hc.ins]
    simp only [signTx, hc.phase?_eq, hc.continuation?_eq, hdata]
    rw [hc.header]
    rfl
  rw [hupdate, stageStart, StagedTx.start_layout]
  cases StagedTx.accepts h <;> rfl

theorem update_output {o : TransactionOutput} (hc : c.Carries o.toRecord .outputs .more)
    (hin : s.inputs = []) (hroom : s.outputs.length < s.header.numOutputs.toNat) :
    (e.holding s).update c.frame.layout =
      (.ok (.data []), e.holding { s with outputs := s.outputs ++ [o.toRecord] }) := by
  have hdata : c.frame.data.isEmpty = false := by
    rw [hc.output]
    rfl
  have hpush := StagedTx.pushOutput_serialize hin hroom o
  rw [update_of_signTx hc.cla hc.ins]
  simp only [signTx, hc.phase?_eq, hc.continuation?_eq, hdata]
  rw [hc.output]
  simp only [stageOutput, staged, holding, bind, Except.bind, hpush]
  rfl

theorem update_input {i : TransactionInput} {cont : Continuation}
    (hc : c.Carries i.toRecord .inputs cont) :
    e.update c.frame.layout = dropOnError (e.stageInput i.serialize (cont = .last)) := by
  have hdata : c.frame.data.isEmpty = false := by
    rw [hc.input]
    rfl
  rw [update_of_signTx hc.cla hc.ins]
  simp only [signTx, hc.phase?_eq, hc.continuation?_eq, hdata]
  rw [hc.input]
  rfl

theorem stageInput_ok {data : Bytes} {last : Bool} {tx : StagedTx}
    (h : s.pushInput data last = .ok tx) : (e.holding s).stageInput data last =
      if last then (e.holding s).review tx else (.ok (.data []), e.holding tx) := by
  simp only [stageInput, staged, holding, bind, Except.bind, h]

theorem stageInput_error {data : Bytes} {last : Bool} {status : StatusWord}
    (h : s.pushInput data last = .error status) :
    (e.holding s).stageInput data last = (.error status, e.holding s) := by
  simp only [stageInput, staged, holding, bind, Except.bind, h]

theorem update_input_more {i : TransactionInput} (hc : c.Carries i.toRecord .inputs .more)
    (hout : s.outputs.length = s.header.numOutputs.toNat)
    (hroom : s.inputs.length < s.header.numInputs.toNat) :
    (e.holding s).update c.frame.layout = if i.addressType ≤ 1 then
        (.ok (.data []), e.holding { s with inputs := s.inputs ++ [i.toRecord] })
      else (.error .txParsingFail, new e.system e.config e.keys) := by
  have hpush := StagedTx.pushInput_serialize hout hroom i false nofun
  rw [update_input hc, show decide (Continuation.more = .last) = false from rfl]
  by_cases htype : i.addressType ≤ 1
  · rw [if_pos htype] at hpush ⊢
    rw [stageInput_ok hpush]
    rfl
  · rw [if_neg htype] at hpush ⊢
    rw [stageInput_error hpush]
    rfl

theorem update_input_last {i : TransactionInput} (hc : c.Carries i.toRecord .inputs .last)
    (hout : s.outputs.length = s.header.numOutputs.toNat)
    (hlast : s.inputs.length + 1 = s.header.numInputs.toNat) :
    (e.holding s).update c.frame.layout = if i.addressType ≤ 1 then
        dropOnError ((e.holding s).review { s with inputs := s.inputs ++ [i.toRecord] })
      else (.error .txParsingFail, new e.system e.config e.keys) := by
  have hpush := StagedTx.pushInput_serialize hout (by omega) i true fun _ => hlast
  rw [update_input hc, show decide (Continuation.last = .last) = true from rfl]
  by_cases htype : i.addressType ≤ 1
  · rw [if_pos htype] at hpush ⊢
    rw [stageInput_ok hpush, if_pos rfl]
  · rw [if_neg htype] at hpush ⊢
    rw [stageInput_error hpush]
    rfl

theorem review_cases (e : Engine σ) (tx : StagedTx)
    (hkeys : ∀ c, tx.header.change = some c →
      ∃ k, KeySource.addressKey e.keys c.addressType c.addressIndex = some k) :
    ∃ source, KeySource.Asked e.keys source ∧
      (tx.Balanced e.system e.keys ∧ dropOnError (e.review tx) =
          (.ok .pending, ⟨e.system, e.config, source, .txPending tx⟩) ∨
        ¬tx.Balanced e.system e.keys ∧ dropOnError (e.review tx) =
          (.error .txParsingFail, new e.system e.config source)) := by
  unfold review
  rw [StagedTx.checkFee_eq]
  by_cases hfee : tx.outputTotal ≤ tx.inputTotal
  · rw [if_pos hfee]
    cases hc : tx.header.change with
    | none => exact ⟨e.keys, .refl _, .inl ⟨⟨hfee, by simp [hc]⟩, rfl⟩⟩
    | some c =>
      obtain ⟨k, hk⟩ := hkeys c hc
      refine ⟨_, KeySource.asked_derive e.keys
        (DerivationPath.address defaultAccount c.addressType c.addressIndex).elements, ?_⟩
      simp only [changeScript, derive_of_key hk]
      rcases tx.checkChange_cases (Device.p2pkScript (e.system.xOnly k.secret)) with
        ⟨⟨o, ho, hscript⟩, hcheck⟩ | ⟨hno, hcheck⟩
      · refine .inl ⟨⟨hfee, ?_⟩, by simp only [hcheck, dropOnError]⟩
        rintro c' hc'
        obtain rfl := Option.some.inj (hc.symm.trans hc')
        exact ⟨k, o, hk, ho, hscript⟩
      · refine .inr ⟨?_, by simp only [hcheck, dropOnError]; rfl⟩
        intro hb
        obtain ⟨k', o, hk', ho, hscript⟩ := hb.change c hc
        obtain rfl := Option.some.inj (hk.symm.trans hk')
        exact hno ⟨o, ho, hscript⟩
  · rw [if_neg hfee]
    exact ⟨e.keys, .refl _, .inr ⟨fun hb => hfee hb.covered, rfl⟩⟩

/-- What passes over pieces that are taken passes over the outputs there is room for. -/
theorem of_outputs {P : Engine σ → List Chunk → Prop}
    (hcons : ∀ (s s' : StagedTx) (c : Chunk) (cs : List Chunk), c.isTerminal = false →
      (e.holding s).update c.frame.layout = (.ok (.data []), e.holding s') →
      P (e.holding s') cs → P (e.holding s) (c :: cs))
    {outputs : List TransactionOutput} {outs : List Chunk}
    (houts : List.Forall₂ (fun o c => c.Carries o.toRecord .outputs .more) outputs outs)
    (hin : s.inputs = []) (hroom : s.outputs.length + outputs.length ≤ s.header.numOutputs.toNat)
    (h : P (e.holding { s with outputs := s.outputs ++ outputs.map TransactionOutput.toRecord })
      cs) :
    P (e.holding s) (outs ++ cs) := by
  induction houts generalizing s with
  | nil => simpa using h
  | @cons o c outputs outs hc _ ih =>
    rw [List.length_cons] at hroom
    have hupdate := update_output (e := e) hc hin (by omega)
    refine hcons s _ c _ hc.isTerminal hupdate (ih hin ?_ ?_)
    · simp
      omega
    · simpa using h

/-- Inputs are taken up to the first of an unknown kind; with all of them there, the transaction is
judged. -/
theorem inputs_cases {inputs : List TransactionInput} (h : Transaction.InputsFramed inputs cs)
    (hout : s.outputs.length = s.header.numOutputs.toNat)
    (hcount : s.inputs.length + inputs.length = s.header.numInputs.toNat)
    (hkeys : ∀ c, s.header.change = some c →
      ∃ k, KeySource.addressKey e.keys c.addressType c.addressIndex = some k)
    (htx : tx = { s with inputs := s.inputs ++ inputs.map TransactionInput.toRecord }) :
    ((∀ i ∈ inputs, i.addressType ≤ 1) ∧ tx.Balanced e.system e.keys) ∧
        (e.holding s).Grants cs tx ∨
      ¬((∀ i ∈ inputs, i.addressType ≤ 1) ∧ tx.Balanced e.system e.keys) ∧
        (e.holding s).Rejects cs := by
  induction h generalizing s with
  | @last i c hc =>
    have hupdate := update_input_last (e := e) hc hout hcount
    by_cases htype : i.addressType ≤ 1
    · rw [if_pos htype, ← List.map_singleton, ← htx] at hupdate
      have hheader : tx.header = s.header := by rw [htx]
      rw [← hheader] at hkeys
      obtain ⟨source, hasked, ⟨hb, hr⟩ | ⟨hb, hr⟩⟩ := (e.holding s).review_cases tx hkeys
      · refine .inl ⟨⟨by simpa using htype, hb⟩, source, hasked, ?_⟩
        have hterminal : c.isTerminal = true := hc.isTerminal
        rw [List.map_singleton, feed_cons_ok (hupdate.trans hr), List.map_singleton,
          Chunk.granted, if_pos hterminal]
        rfl
      · exact .inr ⟨fun h => hb h.2, rejects_of_update hasked (hupdate.trans hr)⟩
    · rw [if_neg htype] at hupdate
      exact .inr ⟨fun h => htype (h.1 i List.mem_cons_self), rejects_of_update (.refl _) hupdate⟩
  | @more i c inputs cs hc _ ih =>
    rw [List.length_cons] at hcount
    have hupdate := update_input_more (e := e) hc hout (by omega)
    by_cases htype : i.addressType ≤ 1
    · rw [if_pos htype] at hupdate
      rcases ih (s := { s with inputs := s.inputs ++ [i.toRecord] }) hout
          (by simp; omega) hkeys (by simpa using htx) with ⟨⟨htypes, hb⟩, hg⟩ | ⟨hno, hr⟩
      · exact .inl ⟨⟨List.forall_mem_cons.2 ⟨htype, htypes⟩, hb⟩,
          Grants.cons (e := e.holding s) hupdate hc.isTerminal hg⟩
      · exact .inr ⟨fun h => hno ⟨(List.forall_mem_cons.1 h.1).2, h.2⟩,
          Rejects.cons (e := e.holding s) hupdate hr⟩
    · rw [if_neg htype] at hupdate
      exact .inr ⟨fun h => htype (h.1 i List.mem_cons_self), rejects_of_update (.refl _) hupdate⟩

/-- A device takes the pieces of a transaction if it is signable, whatever it did before. -/
theorem framed_cases {t : Transaction} (h : t.Framed cs) (e : Engine σ)
    (hkeys : ∀ c, t.change = some c →
      ∃ k, KeySource.addressKey e.keys c.addressType c.addressIndex = some k) :
    t.Signable e.system e.keys ∧ e.Grants cs t.staged ∨
      ¬t.Signable e.system e.keys ∧ e.Rejects cs := by
  rw [Transaction.signable_iff_staged]
  obtain @⟨start, outs, ins, hstart, houts, hins⟩ := h
  have hupdate := update_header (e := e) hstart
  by_cases haccepts : StagedTx.accepts t.header = true
  · rw [if_pos haccepts] at hupdate
    have hroom : ([] : List TxOutput).length + t.outputs.length ≤ t.header.numOutputs.toNat := by
      simp
    have hcases := inputs_cases (e := e) (s := { t.staged with inputs := [] }) hins
      (by simp [Transaction.staged]) (by simp) hkeys (rfl : t.staged = _)
    rcases hcases with ⟨hs, hg⟩ | ⟨hno, hr⟩
    · refine .inl ⟨⟨haccepts, hs⟩, Grants.cons hupdate hstart.isTerminal ?_⟩
      exact of_outputs (P := fun e cs => e.Grants cs t.staged)
        (fun s s' c cs hc hu hg => Grants.cons (e := e.holding s) hu hc hg) houts rfl hroom hg
    · refine .inr ⟨fun h => hno h.2, Rejects.cons hupdate ?_⟩
      exact of_outputs (P := Rejects)
        (fun s s' c cs _ hu hr => Rejects.cons (e := e.holding s) hu hr) houts rfl hroom hr
  · rw [if_neg haccepts] at hupdate
    exact .inr ⟨fun h => haccepts h.1, rejects_of_update (.refl _) hupdate⟩

/-- Whatever a device did before, it takes every piece of a transaction, and asks the operator with
the last one, exactly if the transaction is signable. Of any other it refuses some piece as not
parsing, and it is then as new. -/
theorem signable_iff_granted (e : Engine σ) {t : Transaction} (hchunks : t.chunks = .ok cs)
    (hkeys : ∀ path, ∃ k, (KeySource.derive e.keys path).1 = some k) :
    ((e.feed (cs.map fun c => c.frame.layout)).1 = cs.map Chunk.granted ↔
      t.Signable e.system e.keys) ∧
    (¬t.Signable e.system e.keys → ∃ n source, KeySource.Asked e.keys source ∧
      e.feed (cs.map fun c => c.frame.layout) =
        (List.replicate n (.ok (.data [])) ++ [.error .txParsingFail],
          new e.system e.config source)) := by
  rcases framed_cases (Transaction.framed_of_chunks hchunks) e fun c _ => hkeys _ with
    ⟨hs, source, hasked, hfeed⟩ | ⟨hs, n, source, hasked, hfeed⟩
  · refine ⟨⟨fun _ => hs, fun _ => ?_⟩, fun hno => absurd hs hno⟩
    rw [hfeed]
  · refine ⟨⟨fun h => ?_, fun h => absurd h hs⟩, fun _ => ⟨n, source, hasked, hfeed⟩⟩
    -- a refusal is no answer to a piece that is taken
    rw [hfeed] at h
    have hmem : (.error .txParsingFail : Except StatusWord Output) ∈ cs.map Chunk.granted := by
      rw [← h]
      simp
    obtain ⟨c, -, hc⟩ := List.mem_map.1 hmem
    unfold Chunk.granted at hc
    split at hc <;> cases hc

end Engine

namespace SignableExample

def tx (change : UInt64) : Transaction := .ofInBounds 1
  [⟨3000, Block.zero 32, 0, 7, 0, none⟩, ⟨4000, Block.zero 32, 1, 7, 1, none⟩]
  [⟨5000, [0x52], by decide⟩, ⟨change, Device.p2pkScript (Block.zero 32), by decide⟩]
  (some ⟨1, 7⟩) (by simp [Transaction.InBounds, maxVersion])

theorem signable : (tx 2000).Signable ReleaseExample.system ReleaseExample.keys where
  outputs_le := by decide
  inputs_le := by decide
  types := by decide
  covered := by decide
  change := by
    rintro _ ⟨⟩
    exact ⟨rfl, by decide, ReleaseExample.keys.key, _, rfl, rfl, by decide⟩

theorem not_signable : ¬(tx 2001).Signable ReleaseExample.system ReleaseExample.keys :=
  fun h => absurd h.covered (by decide)

end SignableExample

open SignableExample ReleaseExample in
/-- A device that waits for the operator on another transaction takes one with change up to the
last coin, and refuses it with one coin more. -/
theorem signable_iff_granted_pending : device.activity = .txPending staged ∧
    ∃ cs cs', (tx 2000).chunks = .ok cs ∧ (tx 2001).chunks = .ok cs' ∧
      (device.feed (cs.map fun c => c.frame.layout)).1 = cs.map Chunk.granted ∧
      ∃ n source, device.feed (cs'.map fun c => c.frame.layout) =
        (List.replicate n (.ok (.data [])) ++ [.error .txParsingFail],
          Engine.new device.system device.config source) := by
  obtain ⟨cs, hcs⟩ : ∃ cs, (tx 2000).chunks = .ok cs := Transaction.chunks_complete (by decide)
  obtain ⟨cs', hcs'⟩ : ∃ cs, (tx 2001).chunks = .ok cs := Transaction.chunks_complete (by decide)
  have hkeys : ∀ path, ∃ k, (KeySource.derive device.keys path).1 = some k :=
    fun path => ⟨_, rfl⟩
  obtain ⟨n, source, -, hfeed⟩ := (Engine.signable_iff_granted device hcs' hkeys).2 not_signable
  exact ⟨by decide, cs, cs', hcs, hcs', (Engine.signable_iff_granted device hcs hkeys).1.2 signable,
    n, source, hfeed⟩

end HardwareSigner
