import HardwareSigner.Proofs.Client.Emission
import HardwareSigner.Proofs.Client.Simulated

/-! A signing that nothing stands in the way of. The device takes a signable transaction, signs for
each input once the operator approves, and hands the signatures out one by one; each of them passes
the checks of the wallet, in whatever order it comes. -/

namespace HardwareSigner

/-- The signatures that a device makes with these keys for the inputs of a transaction are good to
a wallet. -/
def Transaction.Verifies (tx : Transaction) (wallet device : SignatureSystem)
    (key : UInt8 → UInt32 → DerivedKey) : Prop :=
  ∀ (j : Nat) (i : TransactionInput) (hash : Block 32), tx.inputs[j]? = some i →
    Device.sighash tx.staged j (device.xOnly (key i.addressType i.addressIndex).secret) =
      .ok hash →
    wallet.verifySchnorr (device.xOnly (key i.addressType i.addressIndex).secret)
      (device.sign (key i.addressType i.addressIndex).secret hash).bytes hash = true

namespace Engine

variable {σ : Type} [KeySource σ] {e : Engine σ} {tx : StagedTx}

theorem update_nextFrame {s : TxSignature} {rest : List TxSignature}
    (hact : e.activity = .remaining tx (s :: rest)) :
    e.update SignatureStream.nextFrame.layout =
      (.ok (.data { s with hasMore := !rest.isEmpty }.layout),
        { e with activity := .remaining tx rest }) := by
  have hfetches : (Event.frame SignatureStream.nextFrame.layout).fetches = true := by decide
  have hstep := e.step_of_fetches hfetches
  rw [nextSignature_cons hact] at hstep
  exact hstep

end Engine

namespace SignatureStream

variable {σ : Type} [KeySource σ] {d : SimDevice σ} {tx : StagedTx}

/-- What is left in the queue of a device is emitted to the last record. -/
theorem emits_remaining {queue : List TxSignature}
    (hact : d.engine.activity = .remaining tx queue) :
    ∃ d', Emits d (TxSignature.handOut queue) d' ∧ d'.engine.activity = .idle := by
  induction queue generalizing d with
  | nil => exact ⟨d, .nil d, hact⟩
  | cons q rest ih =>
    set r : TxSignature := { q with hasMore := !rest.isEmpty }
    set e : Engine σ := { d.engine with activity := .remaining tx rest }
    have hsubmit : Transport.submit d nextFrame.layout =
        (.accepted,
          { d with engine := e, response := some (SimDevice.resolved (.ok r.layout)) }) := by
      change (Sent.accepted, d.submit nextFrame.layout) = _
      simp only [SimDevice.submit, SimDevice.respond, Engine.update_nextFrame hact]
      rfl
    obtain ⟨d', hemits, hidle⟩ := ih (d := { d with engine := e, response := none }) rfl
    exact ⟨d', .cons hsubmit rfl hemits, hidle⟩

theorem run_collect_ofFirst {wallet : SignatureSystem} {t : Transaction} {ks : List (Block 33)}
    {limit : Nat} {q : TxSignature} {rest : List TxSignature}
    (hact : d.engine.activity = .remaining tx rest) (hcount : rest.length + 1 = t.inputs.length)
    (hnodup : ((TxSignature.handOut (q :: rest)).map fun r => r.inputIndex.toNat).Nodup)
    (hpass : ∀ r ∈ TxSignature.handOut (q :: rest),
      (ofFirst wallet t ks limit { q with hasMore := !rest.isEmpty }).Passes r) :
    ∃ sigs d', (ofFirst wallet t ks limit { q with hasMore := !rest.isEmpty }).collect.run.run d =
        (some (.ok sigs), d') ∧ sigs.length = t.inputs.length ∧
      (∀ i (hi : i < sigs.length), sigs[i].inputIndex.toNat = i) ∧ d'.engine.activity = .idle := by
  obtain ⟨d', hemits, hidle⟩ := emits_remaining hact
  have hcollect := run_collect_emits hemits hcount hnodup hpass
  obtain ⟨hall, hindex⟩ := (collect_complete _).run hcollect
  refine ⟨_, d', hcollect, ?_, fun i hi => (hindex i hi).1, hidle⟩
  simpa [expected, ofFirst] using hall

end SignatureStream

namespace PendingApproval

variable {α τ : Type} [Transport τ] {p : PendingApproval α} {a : α} {data : Bytes} {t t' : τ}

theorem run_resolve (hfinish : p.completion.finish data = .ok a)
    (hreceive : Transport.receive t =
      (.answer (Answer.mk data StatusWord.ok.code).layout, t')) :
    p.resolve.run.run t = (some (.ok (.approved a)), t') := by
  have hjudge : judge p.completion (Answer.mk data StatusWord.ok.code).layout =
      .ok (.approved a) := by
    refine bind_eq_ok.2 ⟨_, Exchange.answerOf_layout _, ?_⟩
    change Approval.approved <$> p.completion.finish data = _
    rw [hfinish]
    rfl
  have hawait : p.await.run.run t = (some (.ok (.approved a)), t') := by
    refine (Exchange.run_bind (Exchange.run_receive _ _ hreceive) _).trans ?_
    rw [Exchange.run_lift, hjudge]
  refine (Program.run_bind _ _ t).trans ?_
  rw [hawait]
  cases hkeep : freesLink p.completion (.ok (.approved a)) <;> simp only [hkeep] <;> rfl

end PendingApproval

section

variable {σ : Type} [KeySource σ] {tx : Transaction} {key : UInt8 → UInt32 → DerivedKey}

/-- What a device owes for a transaction passes the checks of the wallet that sent it. -/
theorem TxSignature.Owed.passes {wallet system : SignatureSystem} {keys : σ}
    {order : SignatureOrder} {ks : List (Block 33)} {limit : Nat} {records : List TxSignature}
    {first r : TxSignature} (h : Owed tx.staged system keys order records)
    (hkeys : KeySource.Gives keys key) (htypes : ∀ i ∈ tx.inputs, i.addressType ≤ 1)
    (howned : List.Forall₂ (fun i k => i.OwnedBy system key k) tx.inputs ks)
    (hverify : tx.Verifies wallet system key) (hr : r ∈ records) :
    (SignatureStream.ofFirst wallet tx ks limit first).Passes r := by
  obtain ⟨j, hj⟩ := List.mem_iff_getElem?.1 hr
  obtain ⟨-, hscheme, record, source, k, hrecord, hasked, hkey, hhash, hsignature, -⟩ :=
    h.signs j r hj
  have hplace := h.inputIndex j r hj
  rw [← hplace] at hrecord hhash
  obtain ⟨i, hi, rfl⟩ : ∃ i, tx.inputs[r.inputIndex.toNat]? = some i ∧ i.toRecord = record := by
    simpa [Transaction.staged] using hrecord
  obtain ⟨hlt, hget⟩ := List.getElem?_eq_some_iff.1 hi
  have htype := htypes i (List.mem_of_getElem? hi)
  obtain rfl := Option.some.inj (hkey.symm.trans (hkeys source hasked _ htype i.addressIndex))
  obtain ⟨c, hc, hown⟩ : ∃ c, ks[r.inputIndex.toNat]? = some c ∧ i.OwnedBy system key c := by
    have hks : r.inputIndex.toNat < ks.length := howned.length_eq ▸ hlt
    refine ⟨_, List.getElem?_eq_getElem hks, ?_⟩
    have := howned.get hlt hks
    rwa [List.get_eq_getElem, hget] at this
  obtain ⟨hash, hclient, hdevice⟩ := tx.sighash_staged hlt c
  rw [hown] at hdevice
  obtain rfl := Except.ok.inj (hdevice.symm.trans hhash)
  refine ⟨?_, c, hc, ?_, ?_⟩
  · simp [SignatureStream.ofFirst, hlt]
  · rw [show r.signed.scheme = .schnorr from hscheme]
    exact hclient
  · have hgood := hverify _ i r.sighash hi hhash
    rw [← hsignature, ← hown] at hgood
    rw [show r.signed.scheme = .schnorr from hscheme]
    exact hgood

/-- A signable transaction is sent to the end; the device then waits for the operator. -/
theorem Handle.run_signTransaction (h : Handle) (d : SimDevice σ)
    (hpolicy : d.policy = .manual) (hkeys : KeySource.Gives d.engine.keys key)
    (hsignable : tx.Signable d.engine.system d.engine.keys)
    (hscripts : ∀ o ∈ tx.outputs, o.script.length ≤ 246)
    (hknown : ∀ i ∈ tx.inputs, ∀ k, i.publicKey = some k → i.OwnedBy d.engine.system key k)
    (hformat : ∀ k, (d.engine.system.publicKey k).bytes.head? = some PublicKey.uncompressed) :
    ∃ ks sent, (h.signTransaction tx).run.run d =
        (some (.ok (h.pendingOn (.transaction h.system tx ks h.config.requestTimeout))), sent) ∧
      List.Forall₂ (fun i k => i.OwnedBy d.engine.system key k) tx.inputs ks ∧
      ∃ keys, KeySource.Gives keys key ∧
        sent.engine.Sound d.engine.system d.engine.config keys ∧
        sent.engine.activity = .txPending tx.staged := by
  obtain ⟨ks, told, hask, htells, howned⟩ :=
    h.run_inputKeys d hkeys hsignable.types hformat hknown
  have hstill : tx.Signable told.engine.system told.engine.keys :=
    htells.engine.system ▸ hsignable.asked hkeys htells.engine.keys
  obtain ⟨cs, hcs⟩ := Transaction.chunks_complete hscripts
  have hframed := Transaction.framed_of_chunks hcs
  obtain ⟨source, hsource, hfeed⟩ : told.engine.Grants cs tx.staged := by
    refine ((Engine.framed_cases hframed told.engine ?_).resolve_right fun h => h.1 hstill).2
    intro c hc
    obtain ⟨-, -, k, -, hk, -⟩ := hstill.change c hc
    exact ⟨k, hk⟩
  obtain ⟨sent, hsend, -, hengine⟩ :=
    h.run_sendChunks hframed.ended (htells.policy.trans hpolicy) hfeed
  have htaking := Exchange.run_bind hsend fun _ =>
    pure (h.pendingOn (.transaction h.system tx ks h.config.requestTimeout))
  rw [← Transaction.chunks_eq_ok.1 hcs] at htaking
  have hsound : sent.engine.Sound d.engine.system d.engine.config told.engine.keys := by
    rw [hengine]
    exact ⟨htells.engine.system, htells.engine.config, hsource,
      htells.engine.system ▸ hstill.reviewed⟩
  exact ⟨ks, sent, (Exchange.run_bind hask _).trans (Exchange.run_taking htaking), howned,
    told.engine.keys, hkeys.asked htells.engine.keys, hsound, by rw [hengine]⟩

theorem SimDevice.approve_releases {d : SimDevice σ} {system : SignatureSystem}
    {config : DeviceConfig} {keys : σ} (hs : d.engine.Sound system config keys)
    (hact : d.engine.activity = .txPending tx.staged) (hkeys : KeySource.Gives keys key)
    (htypes : ∀ i ∈ tx.inputs, i.addressType ≤ 1) :
    ∃ q rest engine, d.approve = (.ok (), { d with
        engine, response := some (resolved (.ok { q with hasMore := !rest.isEmpty }.layout)) }) ∧
      TxSignature.Owed tx.staged system keys config.order (TxSignature.handOut (q :: rest)) ∧
      engine.activity = .remaining tx.staged rest := by
  have hinputs : ∀ source, KeySource.Asked keys source → ∀ i ∈ tx.staged.inputs,
      ∃ k, KeySource.addressKey source i.addressType i.addressIndex = some k := by
    intro source hasked record hrecord
    obtain ⟨i, hi, rfl⟩ := List.mem_map.1 hrecord
    exact ⟨_, hkeys source hasked i.addressType (htypes i hi) i.addressIndex⟩
  obtain ⟨b, hb⟩ := Engine.approve_of_keys hs hact hinputs
  obtain ⟨q, rest, howed, rfl, hafter⟩ := Engine.approve_releases hs hact hb
  refine ⟨q, rest, d.engine.approve.2, ?_, howed, hafter⟩
  have hpending : d.engine.isPending = true := by
    rw [Engine.isPending, hact]
    rfl
  rw [approve, if_pos hpending]
  simp only [hb]

/-- A signable transaction is signed in full, whatever the device did before: it is sent, the
operator approves it, and a signature for each input is collected, in the order of the inputs; then
the device is idle. The wallet may know keys already, as long as they are the right ones. The source
has to have the keys, and keys and signatures have to be what a wallet takes them for. -/
theorem Handle.signTransaction_complete (h : Handle) (d : SimDevice σ)
    (hpolicy : d.policy = .manual) (hkeys : KeySource.Gives d.engine.keys key)
    (hsignable : tx.Signable d.engine.system d.engine.keys)
    (hscripts : ∀ o ∈ tx.outputs, o.script.length ≤ 246)
    (hknown : ∀ i ∈ tx.inputs, ∀ k, i.publicKey = some k → i.OwnedBy d.engine.system key k)
    (hformat : ∀ k, (d.engine.system.publicKey k).bytes.head? = some PublicKey.uncompressed)
    (hverify : tx.Verifies h.system d.engine.system key) :
    ∃ pending sent, (h.signTransaction tx).run.run d = (some (.ok pending), sent) ∧
      ∃ approved, sent.approve = (.ok (), approved) ∧
      ∃ stream resolved,
        pending.resolve.run.run approved = (some (.ok (.approved stream)), resolved) ∧
      ∃ sigs done, stream.collect.run.run resolved = (some (.ok sigs), done) ∧
        sigs.length = tx.inputs.length ∧
        (∀ i (hi : i < sigs.length), sigs[i].inputIndex.toNat = i) ∧
        done.engine.activity = .idle := by
  obtain ⟨ks, sent, hsend, howned, keys, hgives, hsound, hact⟩ :=
    h.run_signTransaction d hpolicy hkeys hsignable hscripts hknown hformat
  obtain ⟨q, rest, engine, happrove, howed, hafter⟩ :=
    SimDevice.approve_releases hsound hact hgives hsignable.types
  set first : TxSignature := { q with hasMore := !rest.isEmpty }
  set completion := Completion.transaction h.system tx ks h.config.requestTimeout
  have hfinish : completion.finish first.layout =
      .ok (.ofFirst h.system tx ks h.config.requestTimeout first) :=
    bind_eq_ok.2 ⟨_, by rw [TxSignature.decode_layout]; rfl, rfl⟩
  have hresolve := PendingApproval.run_resolve (p := h.pendingOn completion) hfinish
    (rfl : Transport.receive { sent with
      engine, response := some (SimDevice.resolved (.ok first.layout)) } = _)
  have hcount : rest.length + 1 = tx.inputs.length := by
    have := howed.length_eq
    simpa [Transaction.staged] using this
  obtain ⟨sigs, done, hcollect, hlen, hindex, hidle⟩ :=
    SignatureStream.run_collect_ofFirst (d := { sent with engine, response := none }) hafter hcount
      howed.nodup fun r hr => howed.passes hgives hsignable.types howned hverify hr
  exact ⟨_, sent, hsend, _, happrove, _, _, hresolve, sigs, done, hcollect, hlen, hindex, hidle⟩

end

namespace CompletionExample

open ReleaseExample (OneKey keys config events staged)

def xOnly : Block 32 := Secp256k1.system.xOnly keys.key.secret

/-- Takes the signatures that the owner of a first coordinate makes, and no others. -/
noncomputable def wallet : SignatureSystem :=
  open Classical in
  { Secp256k1.system with
    verifySchnorr := fun x signature hash => decide (∃ k, Secp256k1.system.xOnly k = x ∧
      signature = (Secp256k1.system.sign k hash).bytes) }

/-- Waits for the operator on another transaction, with an answer that nobody fetched. -/
def device : SimDevice OneKey :=
  ⟨(Engine.new Secp256k1.system config keys).after events, .manual, some [0x90, 0x00]⟩

/-- The key of the second input is known; the second output is change. -/
def tx : Transaction := .ofInBounds 1
  [⟨3000, Block.zero 32, 0, 7, 0, none⟩,
    ⟨4000, Block.zero 32, 1, 9, 1, some ⟨0x02 :: xOnly.bytes, by simp [xOnly.length_bytes]⟩⟩]
  [⟨5000, [0x53], by decide⟩,
    ⟨1900, Device.p2pkScript xOnly, by simp [Device.p2pkScript, xOnly.length_bytes]⟩]
  (some ⟨1, 7⟩)

theorem signable : tx.Signable Secp256k1.system keys where
  outputs_le := by simp [tx]
  inputs_le := by simp [tx]
  types := by simp [tx]
  covered := by simp [tx, Transaction.outputTotal, Transaction.inputTotal]
  change := by
    rintro _ ⟨⟩
    exact ⟨rfl, by decide, keys.key, _, rfl, rfl, rfl⟩

theorem gives : KeySource.Gives keys fun _ _ => keys.key := by
  intro source hasked addressType _ index
  rw [hasked.eq_of_constant fun _ => rfl]
  rfl

theorem verifies : tx.Verifies wallet Secp256k1.system fun _ _ => keys.key := by
  intro j i hash _ _
  simp only [wallet, decide_eq_true_eq]
  exact ⟨_, rfl, rfl⟩

end CompletionExample

open CompletionExample in
theorem signTransaction_complete_pending :
    device.engine.activity = .txPending ReleaseExample.staged ∧
    ∃ pending sent, (Handle.signTransaction ⟨wallet, {}⟩ tx).run.run device =
        (some (.ok pending), sent) ∧
      ∃ approved, sent.approve = (.ok (), approved) ∧
      ∃ stream resolved,
        pending.resolve.run.run approved = (some (.ok (.approved stream)), resolved) ∧
      ∃ sigs done, stream.collect.run.run resolved = (some (.ok sigs), done) ∧
        sigs.length = 2 ∧ (∀ i (hi : i < sigs.length), sigs[i].inputIndex.toNat = i) ∧
        done.engine.activity = .idle := by
  have hscripts : ∀ o ∈ tx.outputs, o.script.length ≤ 246 := by
    simp [tx, Device.p2pkScript, xOnly.length_bytes]
  have hknown : ∀ i ∈ tx.inputs, ∀ k, i.publicKey = some k →
      i.OwnedBy Secp256k1.system (fun _ _ => ReleaseExample.keys.key) k := by
    intro i hi k hk
    obtain rfl | rfl : i = _ ∨ i = _ := by simpa [tx] using hi
    · cases hk
    · cases hk
      change Block.xOnly _ = xOnly
      ext1
      simp [Block.xOnly, Block.slice, xOnly.length_bytes]
  exact ⟨by decide, Handle.signTransaction_complete ⟨wallet, {}⟩ device rfl gives signable hscripts
    hknown (fun _ => rfl) verifies⟩

end HardwareSigner
