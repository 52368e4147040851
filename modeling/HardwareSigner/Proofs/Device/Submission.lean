import HardwareSigner.Proofs.Device.Invariant
import HardwareSigner.Proofs.Transaction.Serial

/-! The transaction a device holds is the one that was sent. Payloads are collected over the whole
run, whatever comes in between; the last header that was taken starts them anew. Step by step they
are a header piece, output pieces and input pieces for what is staged. -/

namespace HardwareSigner

/-- The payloads of an exchange after one more event and the answer to it. -/
def collectPayload (sent : List Bytes) : Event × Except StatusWord Output → List Bytes
  | (ev, .ok _) =>
    match ev.exchange? with
    | some (.start, data) => [data]
    | some (.outputs, data) | some (.inputs, data) => sent ++ [data]
    | some (.nextSignature, _) | none => sent
  | (_, .error _) => sent

/-- The payloads that were taken since the last header, that header included. -/
def sentPayloads (answered : List (Event × Except StatusWord Output)) : List Bytes :=
  answered.foldl collectPayload []

/-- The payloads are what this transaction was staged from. -/
def StagedTx.SentAs (tx : StagedTx) (sent : List Bytes) : Prop :=
  ∃ (start : Bytes) (outs ins : List Bytes), sent = start :: (outs ++ ins) ∧
    TxHeader.read.decodeAll start = .ok tx.header ∧
    List.Forall₂ (fun b o => TxOutput.read.decodeAll b = .ok o) outs tx.outputs ∧
    List.Forall₂ (fun b i => TxInput.read.decodeAll b = .ok i) ins tx.inputs

def Activity.SentAs (sent : List Bytes) : Activity → Prop
  | staging tx | txPending tx | signing tx _ => tx.SentAs sent
  | idle | publicKeyPending _ | messagePending .. => True

namespace StagedTx

variable {tx tx' : StagedTx} {data : Bytes} {sent : List Bytes}

theorem start_sentAs (h : start data = .ok tx) : tx.SentAs [data] := by
  obtain ⟨hread, -, hout, hin⟩ := start_ok h
  refine ⟨data, [], [], rfl, hread, ?_, ?_⟩
  · rw [hout]
    exact .nil
  · rw [hin]
    exact .nil

theorem SentAs.pushOutput (hs : tx.SentAs sent) (h : tx.pushOutput data = .ok tx') :
    tx'.SentAs (sent ++ [data]) := by
  obtain ⟨start, outs, ins, rfl, hstart, houts, hins⟩ := hs
  obtain ⟨hnone, -, o, hread, rfl⟩ := pushOutput_ok h
  -- no input piece stands behind the outputs yet
  rw [hnone] at hins
  obtain rfl := List.forall₂_nil_right_iff.1 hins
  refine ⟨start, outs ++ [data], [], by simp, hstart, ?_, ?_⟩
  · exact List.rel_append houts (.cons hread .nil)
  · exact hnone.symm ▸ hins

theorem SentAs.pushInput {last : Bool} (hs : tx.SentAs sent)
    (h : tx.pushInput data last = .ok tx') : tx'.SentAs (sent ++ [data]) := by
  obtain ⟨start, outs, ins, rfl, hstart, houts, hins⟩ := hs
  obtain ⟨-, -, -, i, hread, -, rfl⟩ := pushInput_ok h
  refine ⟨start, outs, ins ++ [data], by simp, hstart, houts, ?_⟩
  exact List.rel_append hins (.cons hread .nil)

/-- Every byte of the payloads of a complete transaction counts, and in one way only. -/
theorem Reviewed.ofPayloads {σ : Type} [KeySource σ] {system : SignatureSystem} {keys : σ}
    (hr : tx.Reviewed system keys) (hs : tx.SentAs sent) :
    ∃ t, Transaction.ofPayloads sent = .ok t ∧ t.version = tx.header.version ∧
      t.change = tx.header.change ∧ t.outputs.map TransactionOutput.toRecord = tx.outputs ∧
      t.inputs = tx.inputs.map TransactionInput.ofRecord := by
  obtain ⟨start, outs, ins, rfl, hstart, houts, hins⟩ := hs
  refine Transaction.ofPayloads_pieces hstart houts hins hr.outputs_eq hr.inputs_eq
    hr.header.version ?_ ?_
  · apply List.ne_nil_of_length_pos
    have := hr.outputs_eq
    have := hr.header.outputs.1
    omega
  · exact hr.inputs_ne

end StagedTx

namespace Engine

variable {σ : Type} [KeySource σ] {e e' : Engine σ} {sent : List Bytes}

omit [KeySource σ] in
theorem sentAs_remaining {tx : StagedTx} (h : tx.SentAs sent) (queue : List TxSignature) :
    (Activity.remaining tx queue).SentAs sent := by
  cases queue with
  | nil => exact trivial
  | cons s rest => exact h

theorem Change.sentAs {ev : Event} {r : Except StatusWord Output} (h : e.Change ev r e')
    (hs : e.activity.SentAs sent) : e'.activity.SentAs (collectPayload sent (ev, r)) := by
  cases h with
  | told hx hask =>
    simp only [collectPayload, hx]
    exact hask.activity ▸ hs
  | refused hask => exact hask.activity ▸ hs
  | dropped hask => exact trivial
  | denied hpending => exact trivial
  | confirmed hno hask => exact trivial
  | keyShown hx hpath => exact trivial
  | messageShown hx hparse hhash => exact trivial
  | started hx hstart =>
    simp only [collectPayload, hx]
    exact StagedTx.start_sentAs hstart
  | outputTaken hx hact hpush =>
    rw [hact] at hs
    simp only [collectPayload, hx]
    exact StagedTx.SentAs.pushOutput hs hpush
  | inputTaken hx hact hpush =>
    rw [hact] at hs
    simp only [collectPayload, hx]
    exact StagedTx.SentAs.pushInput hs hpush
  | completed hx hact hpush hfee hchange hask =>
    rw [hact] at hs
    simp only [collectPayload, hx]
    exact StagedTx.SentAs.pushInput hs hpush
  | fetched hx hf hact =>
    rw [hact] at hs
    simp only [collectPayload, hx]
    exact sentAs_remaining hs _
  | released hact hsign hqueue =>
    rw [hact] at hs
    exact sentAs_remaining hs _
  | stalled hact hsign =>
    rw [hact] at hs
    exact hs

theorem sentAs_after (hs : e.activity.SentAs sent) (evs : List Event) :
    (e.after evs).activity.SentAs ((e.trace evs).foldl collectPayload sent) := by
  induction evs generalizing e sent with
  | nil => exact hs
  | cons ev evs ih => exact ih ((e.step_change ev).sentAs hs)

/-- What waits for approval, or was approved, is the one transaction that the payloads spell out:
nothing is lost, doubled, moved or read in another way, whatever came in between. -/
theorem approves_what_was_sent (system : SignatureSystem) (config : DeviceConfig) (keys : σ)
    (evs : List Event) (tx : StagedTx)
    (hact : ((new system config keys).after evs).activity = .txPending tx ∨
      ∃ queue, ((new system config keys).after evs).activity = .signing tx queue) :
    ∃ t, Transaction.ofPayloads (sentPayloads ((new system config keys).trace evs)) = .ok t ∧
      t.version = tx.header.version ∧ t.change = tx.header.change ∧
      t.outputs.map TransactionOutput.toRecord = tx.outputs ∧
      t.inputs = tx.inputs.map TransactionInput.ofRecord := by
  have hsound := (sound_after system config keys evs).activity
  have hnew : (new system config keys).activity.SentAs [] := trivial
  have hsent := sentAs_after hnew evs
  rcases hact with hact | ⟨queue, hact⟩ <;> rw [hact] at hsound hsent
  · exact StagedTx.Reviewed.ofPayloads hsound hsent
  · exact StagedTx.Reviewed.ofPayloads hsound.1 hsent

end Engine

namespace SubmissionExample

/-- A header that is given up for another one, then two inputs for one output, with questions for
the version and a key request that is refused in between. -/
def events : List Event :=
  [.frame [0xe0, 0x06, 0, 0x80, 4, 0, 0, 2, 1],
   .frame [0xe0, 0x06, 0, 0x80, 4, 0, 1, 1, 2],
   .frame [0xe0, 0x03, 0, 0, 0],
   .frame [0xe0, 0x06, 1, 0x80, 11, 0, 0, 0, 0, 0, 0, 0, 9, 2, 0x20, 0xac],
   .frame ([0xe0, 0x06, 2, 0x80, 49, 0, 0, 0, 0, 0, 0, 0, 4] ++ List.replicate 32 7 ++
     [1, 0, 0, 0, 3, 0, 0, 0, 5]),
   .frame [0xe0, 0x05, 0, 0, 1, 0],
   .frame [0xe0, 0x03, 0, 0, 0],
   .frame ([0xe0, 0x06, 2, 0, 49, 0, 0, 0, 0, 0, 0, 0, 6] ++ List.replicate 32 8 ++
     [0, 0, 0, 0, 0, 0, 0, 0, 1])]

def staged : StagedTx :=
  ⟨⟨1, 1, 2, none⟩, [⟨9, [0x20, 0xac]⟩],
    [⟨4, ⟨List.replicate 32 7, rfl⟩, 1, 3, 5⟩, ⟨6, ⟨List.replicate 32 8, rfl⟩, 0, 0, 1⟩]⟩

def device : Engine Seed := .new Secp256k1.system {} ⟨Block.zero 64⟩

end SubmissionExample

open SubmissionExample in
theorem approves_what_was_sent_interleaved : (device.after events).activity = .txPending staged ∧
    ∃ t, Transaction.ofPayloads (sentPayloads (device.trace events)) = .ok t ∧
      t.version = staged.header.version ∧ t.change = staged.header.change ∧
      t.outputs.map TransactionOutput.toRecord = staged.outputs ∧
      t.inputs = staged.inputs.map TransactionInput.ofRecord := by
  have hact : (device.after events).activity = .txPending staged := by decide
  exact ⟨hact, Engine.approves_what_was_sent _ _ _ events staged (.inl hact)⟩

end HardwareSigner
