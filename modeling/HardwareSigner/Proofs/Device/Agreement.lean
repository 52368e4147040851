import HardwareSigner.Proofs.Device.Registers

/-! The registers hold what the engine's activity says, and the answers are the same, along every
run. What holds of the activity can so be said of each register in each mode. -/

namespace HardwareSigner

/-- Judging an input after it is kept finds the same as judging it before. -/
theorem StagedTx.pushInput_eq (tx : StagedTx) (data : Bytes) (last : Bool) :
    tx.pushInput data last =
      (tx.takeInput data last).1.map fun _ => (tx.takeInput data last).2 := by
  unfold pushInput takeInput
  by_cases hout : tx.outputs.length ≠ tx.header.numOutputs.toNat
  · simp only [if_pos hout]
    rfl
  by_cases hroom : tx.header.numInputs.toNat ≤ tx.inputs.length
  · simp only [if_neg hout, if_pos hroom]
    rfl
  simp only [if_neg hout, if_neg hroom]
  cases TxInput.read.decodeAll data with
  | error _ => rfl
  | ok i =>
    by_cases htype : changeAddress < i.addressType
    · simp only [if_pos htype]
      rfl
    simp only [if_neg htype, List.length_append, List.length_singleton]
    split <;> rfl

namespace Engine

variable {σ : Type} [KeySource σ]

theorem getPublicKey_board (e : Engine σ) (f : Frame) :
    e.board.getPublicKey f = ((e.getPublicKey f).1, (e.getPublicKey f).2.board) := by
  unfold Board.getPublicKey getPublicKey
  split
  · rfl
  split
  · rfl
  cases DerivationPath.read.decode f.data with
  | error _ => rfl
  | ok p =>
    obtain ⟨path, n⟩ := p
    simp only
    cases Device.checkPath path with
    | error s => rfl
    | ok u =>
      simp only
      split
      · rw [board_asking (publicKey_indifferent path) e (e.publicKey_asks path)]
        rcases e.publicKey path with ⟨_ | b, e'⟩ <;> rfl
      · rw [board_reset]
        rfl

omit [KeySource σ] in
theorem signMessage_board (e : Engine σ) (f : Frame) :
    e.board.signMessage f = ((e.signMessage f).1, (e.signMessage f).2.board) := by
  unfold Board.signMessage signMessage
  split
  · rfl
  split
  · rfl
  simp only [board_reset, board_config, show e.reset.config = e.config from rfl]
  cases Device.parseMessage f.data e.config.messageLimit with
  | error s => rfl
  | ok m =>
    simp only
    cases Device.messageHash m.message with
    | error s => rfl
    | ok hash => rfl

omit [KeySource σ] in
theorem txStart_board (e : Engine σ) (data : Bytes) :
    Board.resetOnError (e.board.txStart data) =
      ((dropOnError (e.stageStart data)).1, (dropOnError (e.stageStart data)).2.board) := by
  unfold Board.txStart stageStart
  rw [board_reset]
  cases StagedTx.start data with
  | error s => rfl
  | ok tx => rfl

omit [KeySource σ] in
/-- In the mode of staging the register holds the transaction of the activity. -/
theorem board_of_staged {e : Engine σ} {tx : StagedTx} (h : e.staged = .ok tx) (tx' : StagedTx) :
    { e.board with tx := some tx' } = Engine.board { e with activity := .staging tx' } := by
  obtain ⟨system, config, keys, activity⟩ := e
  obtain rfl : activity = .staging tx := staged_eq_ok.1 h
  rfl

omit [KeySource σ] in
theorem txOutput_board (e : Engine σ) (data : Bytes) :
    Board.resetOnError (e.board.txOutput data) =
      ((dropOnError (e.stageOutput data)).1, (dropOnError (e.stageOutput data)).2.board) := by
  unfold Board.txOutput stageOutput
  rw [board_staged]
  cases hstaged : e.staged with
  | error s => exact congrArg _ e.board_reset
  | ok tx =>
    simp only [show (Except.ok tx >>= fun tx => tx.pushOutput data) = tx.pushOutput data from rfl]
    cases tx.pushOutput data with
    | error s => exact congrArg _ e.board_reset
    | ok tx' => exact congrArg _ (board_of_staged hstaged tx')

theorem txReview_board (e : Engine σ) (tx : StagedTx) :
    Board.resetOnError ((Engine.board { e with activity := .staging tx }).txReview tx) =
      ((dropOnError (e.review tx)).1, (dropOnError (e.review tx)).2.board) := by
  unfold Board.txReview review
  cases tx.checkFee with
  | error s => rfl
  | ok u =>
    simp only
    cases tx.header.change with
    | none => rfl
    | some c =>
      simp only
      rw [board_asking (changeScript_indifferent c) _ (changeScript_asks _ c)]
      have h := changeScript_indifferent c e (.staging tx)
      simp only at h
      rw [h]
      rcases e.changeScript c with ⟨s | script, e'⟩
      · rfl
      · simp only
        cases tx.checkChange script with
        | error s => rfl
        | ok u => rfl

theorem txInput_board (e : Engine σ) (data : Bytes) (last : Bool) :
    Board.resetOnError (e.board.txInput data last) =
      ((dropOnError (e.stageInput data last)).1,
        (dropOnError (e.stageInput data last)).2.board) := by
  unfold Board.txInput stageInput
  rw [board_staged]
  cases hstaged : e.staged with
  | error s => exact congrArg _ e.board_reset
  | ok tx =>
    simp only [show (Except.ok tx >>= fun tx => tx.pushInput data last) =
      tx.pushInput data last from rfl]
    rw [tx.pushInput_eq]
    rcases tx.takeInput data last with ⟨s | u, tx'⟩
    · exact congrArg _ e.board_reset
    · simp only [board_of_staged hstaged]
      cases last with
      | true => exact e.txReview_board tx'
      | false => rfl

omit [KeySource σ] in
theorem nextSignature_board (e : Engine σ) :
    e.board.nextSignature = (e.nextSignature.1, e.nextSignature.2.board) := by
  obtain ⟨system, config, keys, activity⟩ := e
  rcases activity with _ | _ | _ | _ | _ | ⟨tx, _ | ⟨s, _ | ⟨s', rest⟩⟩⟩ <;> rfl

theorem signTx_board (e : Engine σ) (f : Frame) :
    e.board.signTx f = ((e.signTx f).1, (e.signTx f).2.board) := by
  unfold Board.signTx signTx
  cases f.phase? with
  | none => rfl
  | some phase =>
    cases f.continuation? with
    | none => rfl
    | some cont =>
      simp only
      split
      · rfl
      cases phase with
      | nextSignature =>
        change (e.board.nextSignature.1.map Output.data, e.board.nextSignature.2) = _
        rw [nextSignature_board]
        rcases e.nextSignature with ⟨s | b, e'⟩ <;> rfl
      | start =>
        cases f.data.isEmpty with
        | true => rfl
        | false => exact e.txStart_board f.data
      | outputs =>
        cases f.data.isEmpty with
        | true => rfl
        | false => exact e.txOutput_board f.data
      | inputs =>
        cases f.data.isEmpty with
        | true => rfl
        | false => exact e.txInput_board f.data _

omit [KeySource σ] in
theorem query_board (e : Engine σ) (r : Except StatusWord Bytes) :
    e.board.query r = ((e.query r).1, (e.query r).2.board) := by
  cases r <;> rfl

theorem update_board (e : Engine σ) (apdu : Bytes) :
    e.board.update apdu = ((e.update apdu).1, (e.update apdu).2.board) := by
  unfold Board.update update
  cases Frame.read.decodeAll apdu with
  | error _ => rfl
  | ok f =>
    simp only
    split
    · cases Instruction.ofCode? f.ins with
      | none => rfl
      | some ins =>
        cases ins with
        | getVersion =>
          simp only [Board.command, command, board_config]
          split
          · rfl
          · exact e.query_board _
        | getAppName =>
          simp only [Board.command, command, board_config]
          split
          · rfl
          · exact e.query_board _
        | getPublicKey => exact e.getPublicKey_board f
        | signTx => exact e.signTx_board f
        | signMessage => exact e.signMessage_board f
    split
    · split
      · rw [board_config]
        exact e.query_board _
      · rfl
    · rfl

theorem approveTx_board {e : Engine σ} {tx : StagedTx} (hact : e.activity = .txPending tx) :
    e.board.approveTx = ((e.approveTx tx).1, (e.approveTx tx).2.board) := by
  have htx : e.board.tx = some tx := by
    unfold board
    rw [hact]
  have hmode : ∀ (e : Engine σ) (q : List TxSignature), e.activity = .txPending tx →
      { e.board with queue := q, mode := .signing } =
        Engine.board { e with activity := .signing tx q } := by
    rintro ⟨system, config, keys, activity⟩ q rfl
    rfl
  have hask := e.signInputs_asks tx 0 tx.inputs
  unfold Board.approveTx
  simp only [htx]
  rw [board_asking (signInputs_indifferent tx 0 tx.inputs) e hask]
  rcases hsign : e.signInputs tx 0 tx.inputs with ⟨s | signatures, e'⟩ <;> rw [hsign] at hask
  · unfold approveTx
    rw [hsign]
    exact congrArg _ e'.board_reset
  · rw [approveTx_eq hsign]
    change Board.nextSignature { e'.board with queue := _, mode := .signing } = _
    rw [hmode e' _ (hask.activity.trans hact), board_config]
    exact nextSignature_board _

theorem approve_board (e : Engine σ) :
    e.board.approve = (e.approve.1, e.approve.2.board) := by
  unfold Board.approve approve
  rw [board_mode]
  cases hact : e.activity with
  | publicKeyPending path =>
    have hpath : e.board.path = some path := by simp only [board, hact]
    simp only [Activity.mode, hpath]
    rw [board_asking (publicKey_indifferent path) e (e.publicKey_asks path), board_reset]
  | messagePending path hash =>
    have hpath : e.board.path = some path := by simp only [board, hact]
    have hhash : e.board.messageHash = hash := by simp only [board, hact]
    simp only [Activity.mode, hpath, hhash]
    rw [board_asking (signHash_indifferent path hash) e (e.signHash_asks path hash), board_reset]
  | txPending tx => exact approveTx_board hact
  | idle => rfl
  | staging tx => rfl
  | signing tx queue => rfl

theorem step_board (e : Engine σ) (ev : Event) :
    e.board.step ev = ((e.step ev).1, (e.step ev).2.board) := by
  cases ev with
  | frame apdu => exact e.update_board apdu
  | approval =>
    simp only [Board.step, step, approve_board]
  | denial =>
    simp only [Board.step, step, Board.deny, deny, board_isPending]
    split
    · rw [board_reset]
    · rfl

theorem after_board (e : Engine σ) (evs : List Event) :
    e.board.after evs = (e.after evs).board := by
  induction evs generalizing e with
  | nil => rfl
  | cons ev evs ih =>
    change Board.after (e.board.step ev).2 evs = _
    rw [step_board]
    exact ih (e.step ev).2

end Engine

namespace Board

variable {σ : Type} [KeySource σ]

/-- What each register holds in each mode. -/
structure Invariant (system : SignatureSystem) (config : DeviceConfig) (keys : σ)
    (b : Board σ) : Prop where
  init : b.mode = .init →
    b.tx = none ∧ b.path = none ∧ b.messageHash = Block.zero 32 ∧ b.queue = []
  staging : b.mode = .staging → (∃ tx, b.tx = some tx ∧ tx.Partial) ∧ b.queue = []
  txPending : b.mode = .txPending →
    (∃ tx, b.tx = some tx ∧ tx.Reviewed system keys) ∧ b.queue = []
  signing : b.mode = .signing →
    (∃ tx, b.tx = some tx ∧ tx.Reviewed system keys) ∧ b.queue ≠ []
  publicKeyPending : b.mode = .publicKeyPending →
    (∃ path, b.path = some path ∧ Device.checkPath path = .ok ()) ∧ b.tx = none ∧ b.queue = []
  messagePending : b.mode = .messagePending →
    (∃ m : Device.MessageToSign, m.Shown config.messageLimit ∧ b.path = some m.path ∧
      Device.messageHash m.message = .ok b.messageHash) ∧ b.tx = none ∧ b.queue = []

end Board

namespace Engine

variable {σ : Type} [KeySource σ]

theorem Sound.board {system : SignatureSystem} {config : DeviceConfig} {keys : σ} {e : Engine σ}
    (hs : e.Sound system config keys) : e.board.Invariant system config keys := by
  obtain ⟨sys, cfg, source, activity⟩ := e
  have hact := hs.activity
  cases activity with
  | idle => exact ⟨fun _ => ⟨rfl, rfl, rfl, rfl⟩, nofun, nofun, nofun, nofun, nofun⟩
  | staging tx => exact ⟨nofun, fun _ => ⟨⟨tx, rfl, hact⟩, rfl⟩, nofun, nofun, nofun, nofun⟩
  | publicKeyPending path =>
    exact ⟨nofun, nofun, nofun, nofun, fun _ => ⟨⟨path, rfl, hact⟩, rfl, rfl⟩, nofun⟩
  | txPending tx => exact ⟨nofun, nofun, fun _ => ⟨⟨tx, rfl, hact⟩, rfl⟩, nofun, nofun, nofun⟩
  | messagePending path hash =>
    obtain ⟨m, hshown, hpath, hhash⟩ := hact
    exact ⟨nofun, nofun, nofun, nofun, nofun,
      fun _ => ⟨⟨m, hshown, congrArg some hpath.symm, hhash⟩, rfl, rfl⟩⟩
  | signing tx queue =>
    exact ⟨nofun, nofun, nofun, fun _ => ⟨⟨tx, rfl, hact.1⟩, hact.2⟩, nofun, nofun⟩

/-- Whatever reaches a device, its registers are those of the engine's activity, they hold in each
mode what that mode promises, and the next event is answered alike. -/
theorem registers_after (system : SignatureSystem) (config : DeviceConfig) (keys : σ)
    (evs : List Event) :
    (Board.new system config keys).after evs = ((new system config keys).after evs).board ∧
      ((Board.new system config keys).after evs).Invariant system config keys ∧
      ∀ ev, (((Board.new system config keys).after evs).step ev).1 =
        (((new system config keys).after evs).step ev).1 := by
  have hboard : (Board.new system config keys).after evs =
      ((new system config keys).after evs).board := after_board (new system config keys) evs
  have hsound := sound_after system config keys evs
  refine ⟨hboard, hboard ▸ hsound.board, ?_⟩
  intro ev
  rw [hboard, step_board]

end Engine

end HardwareSigner
