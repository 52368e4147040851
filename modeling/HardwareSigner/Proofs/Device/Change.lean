import HardwareSigner.Proofs.Device.Run
import HardwareSigner.Proofs.Wire.Reader

/-! All that one event can do to a device, said once: `Change` has a case for each way in which an
event is answered, with the checks that were passed and the activity that follows. Whatever holds
along a run is derived from these cases. -/

namespace HardwareSigner

/-- Signatures in the order in which they are handed out, from those in the order of inputs. -/
def SignatureOrder.arrange {α : Type} : SignatureOrder → List α → List α
  | .declared, l => l
  | .reversed, l => l.reverse

/-- The activity once signatures were handed out and these are left. -/
def Activity.remaining (tx : StagedTx) (queue : List TxSignature) : Activity :=
  if queue.isEmpty then .idle else .signing tx queue

namespace Engine

variable {σ : Type} [KeySource σ]

/-- What an event can do to an engine, by the answer to it. -/
inductive Change (e : Engine σ) : Event → Except StatusWord Output → Engine σ → Prop
  | told {apdu : Bytes} {b : Bytes} {e' : Engine σ} (hx : (Event.frame apdu).exchange? = none)
      (hask : e.Asks e') : Change e (.frame apdu) (.ok (.data b)) e'
  | refused {ev : Event} {s : StatusWord} {e' : Engine σ} (hask : e.Asks e') :
      Change e ev (.error s) e'
  | dropped {ev : Event} {s : StatusWord} {e' : Engine σ} (hask : e.Asks e') :
      Change e ev (.error s) e'.reset
  | denied (hpending : e.isPending) : Change e .denial (.ok (.data [])) e.reset
  | confirmed {b : Bytes} {e' : Engine σ} (hact : ∀ tx, e.activity ≠ .txPending tx)
      (hask : e.Asks e') : Change e .approval (.ok (.data b)) e'.reset
  | keyShown {apdu : Bytes} {path : DerivationPath} (hx : (Event.frame apdu).exchange? = none)
      (hpath : Device.checkPath path = .ok ()) :
      Change e (.frame apdu) (.ok .pending) { e with activity := .publicKeyPending path }
  | messageShown {apdu data : Bytes} {m : Device.MessageToSign} {hash : Block 32}
      (hx : (Event.frame apdu).exchange? = none)
      (hparse : Device.parseMessage data e.config.messageLimit = .ok m)
      (hhash : Device.messageHash m.message = .ok hash) :
      Change e (.frame apdu) (.ok .pending) { e with activity := .messagePending m.path hash }
  | started {apdu data : Bytes} {tx : StagedTx}
      (hx : (Event.frame apdu).exchange? = some (.start, data))
      (hstart : StagedTx.start data = .ok tx) :
      Change e (.frame apdu) (.ok (.data [])) { e with activity := .staging tx }
  | outputTaken {apdu data : Bytes} {tx tx' : StagedTx}
      (hx : (Event.frame apdu).exchange? = some (.outputs, data))
      (hact : e.activity = .staging tx) (hpush : tx.pushOutput data = .ok tx') :
      Change e (.frame apdu) (.ok (.data [])) { e with activity := .staging tx' }
  | inputTaken {apdu data : Bytes} {tx tx' : StagedTx}
      (hx : (Event.frame apdu).exchange? = some (.inputs, data))
      (hact : e.activity = .staging tx) (hpush : tx.pushInput data false = .ok tx') :
      Change e (.frame apdu) (.ok (.data [])) { e with activity := .staging tx' }
  | completed {apdu data : Bytes} {tx tx' : StagedTx} {e' : Engine σ}
      (hx : (Event.frame apdu).exchange? = some (.inputs, data))
      (hact : e.activity = .staging tx) (hpush : tx.pushInput data true = .ok tx')
      (hfee : tx'.checkFee = .ok ())
      (hchange : ∀ c, tx'.header.change = some c →
        ∃ script, (e.changeScript c).1 = .ok script ∧ tx'.checkChange script = .ok ())
      (hask : e.Asks e') :
      Change e (.frame apdu) (.ok .pending) { e' with activity := .txPending tx' }
  | fetched {apdu data : Bytes} {tx : StagedTx} {s : TxSignature} {rest : List TxSignature}
      (hx : (Event.frame apdu).exchange? = some (.nextSignature, data))
      (hf : (Event.frame apdu).fetches = true) (hact : e.activity = .signing tx (s :: rest)) :
      Change e (.frame apdu) (.ok (.data { s with hasMore := !rest.isEmpty }.layout))
        { e with activity := .remaining tx rest }
  | released {tx : StagedTx} {signatures rest : List TxSignature} {s : TxSignature}
      {e' : Engine σ} (hact : e.activity = .txPending tx)
      (hsign : e.signInputs tx 0 tx.inputs = (.ok signatures, e'))
      (hqueue : e.config.order.arrange signatures = s :: rest) :
      Change e .approval (.ok (.data { s with hasMore := !rest.isEmpty }.layout))
        { e' with activity := .remaining tx rest }
  | stalled {tx : StagedTx} {e' : Engine σ} (hact : e.activity = .txPending tx)
      (hsign : e.signInputs tx 0 tx.inputs = (.ok [], e')) :
      Change e .approval (.error .badState) { e' with activity := .signing tx [] }

theorem query_change (e : Engine σ) {apdu : Bytes} (hx : (Event.frame apdu).exchange? = none)
    (r : Except StatusWord Bytes) : e.Change (.frame apdu) (e.query r).1 (e.query r).2 := by
  unfold query
  split
  · exact .told hx (.refl e)
  · exact .refused (.refl e)

theorem getPublicKey_change (e : Engine σ) {apdu : Bytes}
    (hx : (Event.frame apdu).exchange? = none) (f : Frame) :
    e.Change (.frame apdu) (e.getPublicKey f).1 (e.getPublicKey f).2 := by
  unfold getPublicKey
  split
  · exact .refused (.refl e)
  split
  · exact .refused (.refl e)
  split
  · exact .refused (.refl e)
  rename_i path _ _
  split
  · exact .refused (.refl e)
  rename_i hpath
  split
  · have hask := e.publicKey_asks path
    split <;> rename_i hkey <;> rw [hkey] at hask
    · exact .told hx hask
    · exact .refused hask
  · exact .keyShown hx hpath

theorem signMessage_change (e : Engine σ) {apdu : Bytes}
    (hx : (Event.frame apdu).exchange? = none) (f : Frame) :
    e.Change (.frame apdu) (e.signMessage f).1 (e.signMessage f).2 := by
  unfold signMessage
  split
  · exact .refused (.refl e)
  split
  · exact .refused (.refl e)
  split
  · exact .dropped (.refl e)
  rename_i m hparse
  split
  · exact .dropped (.refl e)
  rename_i hash hhash
  exact .messageShown hx hparse hhash

theorem nextSignature_change (e : Engine σ) {apdu data : Bytes}
    (hx : (Event.frame apdu).exchange? = some (.nextSignature, data))
    (hf : (Event.frame apdu).fetches = true) :
    e.Change (.frame apdu) (e.nextSignature.1.map .data) e.nextSignature.2 := by
  unfold nextSignature
  split
  · rename_i tx s rest hact
    have h := Change.fetched hx hf hact
    cases rest <;> exact h
  · exact .refused (.refl e)

omit [KeySource σ] in
theorem staged_eq_ok {e : Engine σ} {tx : StagedTx} :
    e.staged = .ok tx ↔ e.activity = .staging tx := by
  unfold staged
  split <;> simp_all

theorem stageStart_change (e : Engine σ) {apdu data : Bytes}
    (hx : (Event.frame apdu).exchange? = some (.start, data)) :
    e.Change (.frame apdu) (dropOnError (e.stageStart data)).1
      (dropOnError (e.stageStart data)).2 := by
  unfold stageStart
  split
  · exact .dropped (.refl e)
  · rename_i tx hstart
    exact .started hx hstart

theorem stageOutput_change (e : Engine σ) {apdu data : Bytes}
    (hx : (Event.frame apdu).exchange? = some (.outputs, data)) :
    e.Change (.frame apdu) (dropOnError (e.stageOutput data)).1
      (dropOnError (e.stageOutput data)).2 := by
  unfold stageOutput
  split
  · exact .dropped (.refl e)
  · rename_i tx' h
    obtain ⟨tx, hstaged, hpush⟩ := bind_eq_ok.1 h
    exact .outputTaken hx (staged_eq_ok.1 hstaged) hpush

/-- A complete transaction is pending only if it passed the review. -/
theorem review_change (e : Engine σ) {apdu data : Bytes} {tx tx' : StagedTx}
    (hx : (Event.frame apdu).exchange? = some (.inputs, data))
    (hact : e.activity = .staging tx) (hpush : tx.pushInput data true = .ok tx') :
    e.Change (.frame apdu) (dropOnError (e.review tx')).1 (dropOnError (e.review tx')).2 := by
  unfold review
  split
  · exact .dropped (.refl e)
  rename_i hfee
  split
  · rename_i hnone
    refine .completed hx hact hpush hfee ?_ (.refl e)
    intro c hc
    rw [hnone] at hc
    cases hc
  rename_i c hsome
  have hask := e.changeScript_asks c
  split <;> rename_i hscript <;> rw [hscript] at hask
  · exact .dropped hask
  split
  · exact .dropped hask
  · rename_i hpaid
    refine .completed hx hact hpush hfee ?_ hask
    intro c' hc'
    obtain rfl : c = c' := Option.some.inj (hsome.symm.trans hc')
    exact ⟨_, by rw [hscript], hpaid⟩

theorem stageInput_change (e : Engine σ) {apdu data : Bytes} (last : Bool)
    (hx : (Event.frame apdu).exchange? = some (.inputs, data)) :
    e.Change (.frame apdu) (dropOnError (e.stageInput data last)).1
      (dropOnError (e.stageInput data last)).2 := by
  unfold stageInput
  split
  · exact .dropped (.refl e)
  · rename_i tx' h
    obtain ⟨tx, hstaged, hpush⟩ := bind_eq_ok.1 h
    have hact := staged_eq_ok.1 hstaged
    cases last with
    | true => exact e.review_change hx hact hpush
    | false => exact .inputTaken hx hact hpush

theorem signTx_change (e : Engine σ) {apdu : Bytes} {f : Frame}
    (hx : (Event.frame apdu).exchange? = f.phase?.map fun p => (p, f.data))
    (hf : (Event.frame apdu).fetches =
      (f.phase? = some .nextSignature && f.continuation?.isSome)) :
    e.Change (.frame apdu) (e.signTx f).1 (e.signTx f).2 := by
  unfold signTx
  split
  · rename_i phase cont hphase hcont
    rw [hphase, Option.map_some] at hx
    rw [hphase, hcont] at hf
    split
    · exact .refused (.refl e)
    split
    · have h := e.nextSignature_change hx hf
      split <;> rename_i hnext <;> rw [hnext] at h <;> exact h
    · split
      · exact .refused (.refl e)
      · exact e.stageStart_change hx
    · split
      · exact .refused (.refl e)
      · exact e.stageOutput_change hx
    · split
      · exact .refused (.refl e)
      · exact e.stageInput_change _ hx
  · exact .refused (.refl e)

theorem update_change (e : Engine σ) (apdu : Bytes) :
    e.Change (.frame apdu) (e.update apdu).1 (e.update apdu).2 := by
  unfold update
  split
  · exact .refused (.refl e)
  rename_i f hread
  have hx : (Event.frame apdu).exchange? =
      if f.cla = appClass ∧ Instruction.ofCode? f.ins = some .signTx then
        f.phase?.map fun p => (p, f.data)
      else none := by
    simp only [Event.exchange?, hread]
  have hf : (Event.frame apdu).fetches =
      (f.cla = appClass && Instruction.ofCode? f.ins = some .signTx &&
        f.phase? = some .nextSignature && f.continuation?.isSome) := by
    simp only [Event.fetches, hread]
  split
  · rename_i hcla
    split
    · rename_i ins hins
      simp only [hcla, hins, true_and, Option.some.injEq] at hx hf
      cases ins with
      | getVersion =>
        simp only [command]
        split
        · exact .refused (.refl e)
        · exact e.query_change hx _
      | getAppName =>
        simp only [command]
        split
        · exact .refused (.refl e)
        · exact e.query_change hx _
      | getPublicKey => exact e.getPublicKey_change hx f
      | signTx => exact e.signTx_change hx (by simpa using hf)
      | signMessage => exact e.signMessage_change hx f
    · exact .refused (.refl e)
  · rename_i hcla
    rw [if_neg fun h => hcla h.1] at hx
    split
    · split
      · exact e.query_change hx _
      · exact .refused (.refl e)
    · exact .refused (.refl e)

/-- Once every input is signed for, the arranged signatures are the queue. -/
theorem approveTx_eq {e e' : Engine σ} {tx : StagedTx} {signatures : List TxSignature}
    (hsign : e.signInputs tx 0 tx.inputs = (.ok signatures, e')) :
    e.approveTx tx = Engine.nextSignature
      { e' with activity := .signing tx (e'.config.order.arrange signatures) } := by
  unfold approveTx
  rw [hsign]
  cases ho : e'.config.order <;> simp only [ho, SignatureOrder.arrange]

theorem approveTx_change (e : Engine σ) {tx : StagedTx} (hact : e.activity = .txPending tx) :
    e.Change .approval ((e.approveTx tx).1.map .data) (e.approveTx tx).2 := by
  have hask := e.signInputs_asks tx 0 tx.inputs
  rcases hsign : e.signInputs tx 0 tx.inputs with ⟨_ | signatures, e'⟩ <;> rw [hsign] at hask
  · unfold approveTx
    rw [hsign]
    exact .dropped hask
  rw [approveTx_eq hsign]
  have horder : e'.config.order = e.config.order := congrArg _ hask.config
  cases hqueue : e'.config.order.arrange signatures with
  | cons s rest =>
    have h := Change.released hact hsign (horder ▸ hqueue)
    cases rest <;> exact h
  | nil =>
    rw [horder] at hqueue
    have hnil : signatures = [] := by
      cases ho : e.config.order <;> simpa [ho, SignatureOrder.arrange] using hqueue
    rw [hnil] at hsign
    exact .stalled hact hsign

theorem approve_change (e : Engine σ) :
    e.Change .approval (e.approve.1.map .data) e.approve.2 := by
  unfold approve
  split
  · rename_i path hact
    have hask := e.publicKey_asks path
    rcases hkey : e.publicKey path with ⟨r, e'⟩
    rw [hkey] at hask
    cases r with
    | error s => exact .dropped hask
    | ok b => exact .confirmed (by simp [hact]) hask
  · rename_i path hash hact
    have hask := e.signHash_asks path hash
    rcases hsign : e.signHash path hash with ⟨r, e'⟩
    rw [hsign] at hask
    cases r with
    | error s => exact .dropped hask
    | ok b => exact .confirmed (by simp [hact]) hask
  · rename_i tx hact
    exact e.approveTx_change hact
  · exact .refused (.refl e)

theorem step_change (e : Engine σ) (ev : Event) : e.Change ev (e.step ev).1 (e.step ev).2 := by
  cases ev with
  | frame apdu => exact e.update_change apdu
  | approval => exact e.approve_change
  | denial =>
    unfold step deny
    by_cases hpending : e.isPending
    · simp only [hpending, if_true]
      exact .denied hpending
    · simp only [hpending]
      exact .refused (.refl e)

end Engine

end HardwareSigner
