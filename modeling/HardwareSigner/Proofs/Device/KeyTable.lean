import HardwareSigner.Proofs.Device.Change

/-! A source of keys that answers as it did before, however often it is asked, is as good as the
table of its answers: a device that has the table in its place answers alike and is in the middle of
the same at every point of a run. What a device does may so be followed where asking for a key
changes nothing at all. -/

namespace HardwareSigner

/-- Keys by path, the same at every question. -/
structure KeyTable where
  key : List UInt32 → Option DerivedKey

instance : KeySource KeyTable where
  derive t path := (t.key path, t)

namespace KeySource

variable {σ : Type} [KeySource σ]

/-- However often it was asked before, the source answers out of this table. -/
def ReadsFrom (keys : σ) (t : KeyTable) : Prop :=
  ∀ source, Asked keys source → ∀ path, (derive source path).1 = t.key path

theorem ReadsFrom.asked {s s' : σ} {t : KeyTable} (h : ReadsFrom s t) (hs : Asked s s') :
    ReadsFrom s' t :=
  fun source hasked => h source (hs.trans hasked)

/-- What the source answers is the same however often it was asked before. -/
def Steady (keys : σ) : Prop :=
  ∀ source, Asked keys source → ∀ path, (derive source path).1 = (derive keys path).1

theorem Steady.readsFrom {keys : σ} (h : Steady keys) :
    ReadsFrom keys ⟨fun path => (derive keys path).1⟩ := h

/-- A source that questions leave as it is. -/
theorem steady_of_constant {keys : σ} (h : ∀ path, (derive keys path).2 = keys) : Steady keys := by
  intro source hasked path
  rw [hasked.eq_of_constant h]

end KeySource

namespace Engine

/-- The device with a table in the place of its source. -/
def tabled {σ : Type} (e : Engine σ) (t : KeyTable) : Engine KeyTable :=
  ⟨e.system, e.config, t, e.activity⟩

section

variable {σ : Type} (e : Engine σ) (t : KeyTable)

@[simp] theorem tabled_system : (e.tabled t).system = e.system := rfl
@[simp] theorem tabled_config : (e.tabled t).config = e.config := rfl
@[simp] theorem tabled_keys : (e.tabled t).keys = t := rfl
@[simp] theorem tabled_activity : (e.tabled t).activity = e.activity := rfl
@[simp] theorem tabled_staged : (e.tabled t).staged = e.staged := rfl
@[simp] theorem tabled_isPending : (e.tabled t).isPending = e.isPending := rfl

/-- A table in the place of the source hides nothing else of a device. -/
theorem eq_of_tabled {e e' : Engine σ} {t : KeyTable} (h : e.tabled t = e'.tabled t) :
    e = { e' with keys := e.keys } := by
  obtain ⟨system, config, keys, activity⟩ := e
  cases h
  rfl

end

variable {σ : Type} [KeySource σ] {e : Engine σ} {t : KeyTable}

theorem derive_tabled (h : KeySource.ReadsFrom e.keys t) (path : List UInt32) :
    (e.tabled t).derive path = ((e.derive path).1, (e.derive path).2.tabled t) := by
  have hkey := h e.keys (.refl _) path
  have htable : KeySource.derive t path = (t.key path, t) := rfl
  simp only [derive, tabled_keys, htable, ← hkey]
  rcases KeySource.derive e.keys path with ⟨_ | k, s⟩ <;> rfl

theorem publicKey_tabled (h : KeySource.ReadsFrom e.keys t) (path : DerivationPath) :
    (e.tabled t).publicKey path = ((e.publicKey path).1, (e.publicKey path).2.tabled t) := by
  simp only [publicKey, derive_tabled h]
  rcases e.derive path.elements with ⟨_ | k, e'⟩ <;> rfl

theorem getPublicKey_tabled (h : KeySource.ReadsFrom e.keys t) (f : Frame) :
    (e.tabled t).getPublicKey f = ((e.getPublicKey f).1, (e.getPublicKey f).2.tabled t) := by
  unfold getPublicKey
  split
  · rfl
  split
  · rfl
  cases DerivationPath.read.decode f.data with
  | error _ => rfl
  | ok p =>
    obtain ⟨path, n⟩ := p
    simp only
    cases Device.checkPath path with
    | error s => rfl
    | ok u =>
      simp only [publicKey_tabled h]
      split
      · rcases e.publicKey path with ⟨_ | b, e'⟩ <;> rfl
      · rfl

omit [KeySource σ] in
theorem signMessage_tabled (f : Frame) :
    (e.tabled t).signMessage f = ((e.signMessage f).1, (e.signMessage f).2.tabled t) := by
  unfold signMessage
  split
  · rfl
  split
  · rfl
  simp only [tabled_config]
  cases Device.parseMessage f.data e.config.messageLimit with
  | error s => rfl
  | ok m =>
    simp only
    cases Device.messageHash m.message with
    | error s => rfl
    | ok hash => rfl

theorem changeScript_tabled (h : KeySource.ReadsFrom e.keys t) (c : ChangeAddress) :
    (e.tabled t).changeScript c = ((e.changeScript c).1, (e.changeScript c).2.tabled t) := by
  simp only [changeScript, derive_tabled h]
  rcases e.derive _ with ⟨_ | k, e'⟩ <;> rfl

theorem review_tabled (h : KeySource.ReadsFrom e.keys t) (tx : StagedTx) :
    (e.tabled t).review tx = ((e.review tx).1, (e.review tx).2.tabled t) := by
  unfold review
  cases tx.checkFee with
  | error s => rfl
  | ok u =>
    simp only
    cases tx.header.change with
    | none => rfl
    | some c =>
      simp only [changeScript_tabled h]
      rcases e.changeScript c with ⟨s | script, e'⟩
      · rfl
      · simp only
        cases tx.checkChange script with
        | error s => rfl
        | ok u => rfl

omit [KeySource σ] in
theorem stageStart_tabled (data : Bytes) :
    (e.tabled t).stageStart data = ((e.stageStart data).1, (e.stageStart data).2.tabled t) := by
  unfold stageStart
  cases StagedTx.start data <;> rfl

omit [KeySource σ] in
theorem stageOutput_tabled (data : Bytes) :
    (e.tabled t).stageOutput data = ((e.stageOutput data).1, (e.stageOutput data).2.tabled t) := by
  simp only [stageOutput, tabled_staged]
  cases e.staged >>= fun tx => tx.pushOutput data <;> rfl

theorem stageInput_tabled (h : KeySource.ReadsFrom e.keys t) (data : Bytes) (last : Bool) :
    (e.tabled t).stageInput data last =
      ((e.stageInput data last).1, (e.stageInput data last).2.tabled t) := by
  simp only [stageInput, tabled_staged]
  cases e.staged >>= fun tx => tx.pushInput data last with
  | error s => rfl
  | ok tx =>
    simp only [review_tabled h]
    split <;> rfl

omit [KeySource σ] in
theorem nextSignature_tabled :
    (e.tabled t).nextSignature = (e.nextSignature.1, e.nextSignature.2.tabled t) := by
  simp only [nextSignature, tabled_activity]
  split
  · split <;> rfl
  · rfl

omit [KeySource σ] in
theorem dropOnError_tabled {α : Type} (r : Except StatusWord α × Engine σ) :
    dropOnError (r.1, r.2.tabled t) = ((dropOnError r).1, (dropOnError r).2.tabled t) := by
  obtain ⟨_ | a, e'⟩ := r <;> rfl

theorem signTx_tabled (h : KeySource.ReadsFrom e.keys t) (f : Frame) :
    (e.tabled t).signTx f = ((e.signTx f).1, (e.signTx f).2.tabled t) := by
  unfold signTx
  split
  · rename_i phase cont _ _
    split
    · rfl
    cases phase with
    | nextSignature =>
      simp only [nextSignature_tabled]
      rcases e.nextSignature with ⟨_ | b, e'⟩ <;> rfl
    | start =>
      simp only [stageStart_tabled, dropOnError_tabled]
      split <;> rfl
    | outputs =>
      simp only [stageOutput_tabled, dropOnError_tabled]
      split <;> rfl
    | inputs =>
      simp only [stageInput_tabled h, dropOnError_tabled]
      split <;> rfl
  · rfl

omit [KeySource σ] in
theorem query_tabled (r : Except StatusWord Bytes) :
    (e.tabled t).query r = ((e.query r).1, (e.query r).2.tabled t) := by
  cases r <;> rfl

theorem command_tabled (h : KeySource.ReadsFrom e.keys t) (f : Frame) (ins : Instruction) :
    (e.tabled t).command f ins = ((e.command f ins).1, (e.command f ins).2.tabled t) := by
  cases ins with
  | getVersion =>
    simp only [command, query_tabled]
    split <;> rfl
  | getAppName =>
    simp only [command, query_tabled]
    split <;> rfl
  | getPublicKey => exact getPublicKey_tabled h f
  | signTx => exact signTx_tabled h f
  | signMessage => exact signMessage_tabled f

theorem update_tabled (h : KeySource.ReadsFrom e.keys t) (apdu : Bytes) :
    (e.tabled t).update apdu = ((e.update apdu).1, (e.update apdu).2.tabled t) := by
  unfold update
  cases Frame.read.decodeAll apdu with
  | error _ => rfl
  | ok f =>
    simp only [command_tabled h, query_tabled]
    split
    · split <;> rfl
    split
    · split <;> rfl
    · rfl

theorem signHash_tabled (h : KeySource.ReadsFrom e.keys t) (path : DerivationPath)
    (hash : Block 32) :
    (e.tabled t).signHash path hash =
      ((e.signHash path hash).1, (e.signHash path hash).2.tabled t) := by
  simp only [signHash, derive_tabled h]
  rcases e.derive path.elements with ⟨_ | k, e'⟩ <;> rfl

theorem signInput_tabled (h : KeySource.ReadsFrom e.keys t) (tx : StagedTx) (index : Nat)
    (i : TxInput) : (e.tabled t).signInput tx index i =
      ((e.signInput tx index i).1, (e.signInput tx index i).2.tabled t) := by
  simp only [signInput, derive_tabled h]
  rcases e.derive _ with ⟨_ | k, e'⟩
  · rfl
  · simp only [tabled_system]
    split <;> rfl

theorem signInputs_tabled (h : KeySource.ReadsFrom e.keys t) (tx : StagedTx) (index : Nat)
    (inputs : List TxInput) : (e.tabled t).signInputs tx index inputs =
      ((e.signInputs tx index inputs).1, (e.signInputs tx index inputs).2.tabled t) := by
  induction inputs generalizing e index with
  | nil => rfl
  | cons i rest ih =>
    have hask := e.signInput_asks tx index i
    simp only [signInputs, signInput_tabled h]
    rcases hi : e.signInput tx index i with ⟨_ | s, e'⟩
    · rfl
    · rw [hi] at hask
      simp only [ih (h.asked hask.keys)]
      rcases e'.signInputs tx (index + 1) rest with ⟨_ | signatures, e''⟩ <;> rfl

theorem approveTx_tabled (h : KeySource.ReadsFrom e.keys t) (tx : StagedTx) :
    (e.tabled t).approveTx tx = ((e.approveTx tx).1, (e.approveTx tx).2.tabled t) := by
  simp only [approveTx, signInputs_tabled h]
  rcases e.signInputs tx 0 tx.inputs with ⟨_ | signatures, e'⟩
  · rfl
  · exact nextSignature_tabled (e := { e' with activity := .signing tx _ })

theorem approve_tabled (h : KeySource.ReadsFrom e.keys t) :
    (e.tabled t).approve = (e.approve.1, e.approve.2.tabled t) := by
  simp only [approve, tabled_activity, publicKey_tabled h, signHash_tabled h, approveTx_tabled h]
  split <;> rfl

omit [KeySource σ] in
theorem deny_tabled : (e.tabled t).deny = (e.deny.1, e.deny.2.tabled t) := by
  unfold deny
  rw [tabled_isPending]
  cases e.isPending <;> rfl

theorem step_tabled (h : KeySource.ReadsFrom e.keys t) (ev : Event) :
    (e.tabled t).step ev = ((e.step ev).1, (e.step ev).2.tabled t) := by
  cases ev with
  | frame apdu => exact update_tabled h apdu
  | approval => simp only [step, approve_tabled h]
  | denial => simp only [step, deny_tabled]

/-- All that an event does to the source is to ask it. -/
theorem Change.asked {ev : Event} {r : Except StatusWord Output} {e' : Engine σ}
    (h : e.Change ev r e') : KeySource.Asked e.keys e'.keys := by
  cases h with
  | told _ hask => exact hask.keys
  | refused hask => exact hask.keys
  | dropped hask => exact hask.keys
  | denied _ => exact .refl _
  | confirmed _ hask => exact hask.keys
  | keyShown _ _ => exact .refl _
  | messageShown _ _ _ => exact .refl _
  | started _ _ => exact .refl _
  | outputTaken _ _ _ => exact .refl _
  | inputTaken _ _ _ => exact .refl _
  | completed _ _ _ _ _ hask => exact hask.keys
  | fetched _ _ _ => exact .refl _
  | @released tx _ _ _ _ _ hsign _ =>
    have hask := e.signInputs_asks tx 0 tx.inputs
    rw [hsign] at hask
    exact hask.keys
  | @stalled tx _ _ hsign =>
    have hask := e.signInputs_asks tx 0 tx.inputs
    rw [hsign] at hask
    exact hask.keys

theorem step_asked (e : Engine σ) (ev : Event) : KeySource.Asked e.keys (e.step ev).2.keys :=
  (e.step_change ev).asked

theorem trace_tabled (h : KeySource.ReadsFrom e.keys t) (evs : List Event) :
    (e.tabled t).trace evs = e.trace evs := by
  induction evs generalizing e with
  | nil => rfl
  | cons ev evs ih =>
    simp only [trace, step_tabled h, ih (h.asked (e.step_asked ev))]

theorem after_tabled (h : KeySource.ReadsFrom e.keys t) (evs : List Event) :
    (e.tabled t).after evs = (e.after evs).tabled t := by
  induction evs generalizing e with
  | nil => rfl
  | cons ev evs ih =>
    simp only [after_cons, step_tabled h, ih (h.asked (e.step_asked ev))]

end Engine

end HardwareSigner
