import HardwareSigner.Proofs.Device.Invariant

/-! A device as hardware keeps it: a mode, and registers that are all there in every mode, so that
each handler has to clear or set what it should. `Board` says when registers are cleared, which is
before a request is parsed in some handlers and after it in others, and that an input is kept before
it is judged. It is shown to answer as the engine does and to hold what the engine's activity
says. -/

namespace HardwareSigner

inductive Mode where
  | init
  | staging
  | publicKeyPending
  | txPending
  | messagePending
  | signing
  deriving DecidableEq

def Activity.mode : Activity → Mode
  | idle => .init
  | staging _ => .staging
  | publicKeyPending _ => .publicKeyPending
  | txPending _ => .txPending
  | messagePending .. => .messagePending
  | signing .. => .signing

/-- A device with one register for each thing it may have to keep. -/
structure Board (σ : Type) where
  system : SignatureSystem
  config : DeviceConfig
  keys : σ
  mode : Mode
  tx : Option StagedTx
  path : Option DerivationPath
  messageHash : Block 32
  queue : List TxSignature

namespace StagedTx

/-- Keeps an input and judges afterwards whether it could have been the last. -/
def takeInput (tx : StagedTx) (data : Bytes) (last : Bool) : Except StatusWord Unit × StagedTx :=
  if tx.outputs.length ≠ tx.header.numOutputs.toNat then (.error .badState, tx)
  else if tx.header.numInputs.toNat ≤ tx.inputs.length then (.error .txParsingFail, tx)
  else
    match TxInput.read.decodeAll data with
    | .error _ => (.error .txParsingFail, tx)
    | .ok i =>
      if changeAddress < i.addressType then (.error .txParsingFail, tx)
      else
        let tx := { tx with inputs := tx.inputs ++ [i] }
        if last && tx.inputs.length ≠ tx.header.numInputs.toNat then (.error .txParsingFail, tx)
        else (.ok (), tx)

end StagedTx

namespace Board

variable {σ : Type} [KeySource σ]

def new (system : SignatureSystem) (config : DeviceConfig) (keys : σ) : Board σ :=
  ⟨system, config, keys, .init, none, none, Block.zero 32, []⟩

def reset (b : Board σ) : Board σ :=
  { b with mode := .init, tx := none, path := none, messageHash := Block.zero 32, queue := [] }

def isPending (b : Board σ) : Bool :=
  b.mode = .publicKeyPending || b.mode = .txPending || b.mode = .messagePending

/-- What is done with keys alone touches no register. -/
def asking {α : Type} (b : Board σ) (f : Engine σ → Except StatusWord α × Engine σ) :
    Except StatusWord α × Board σ :=
  let (r, e) := f (Engine.new b.system b.config b.keys)
  (r, { b with keys := e.keys })

def getPublicKey (b : Board σ) (f : Frame) : Except StatusWord Output × Board σ :=
  if 1 < f.p1 || f.p2 ≠ 0 then (.error .wrongP1P2, b)
  else if f.data.isEmpty then (.error .wrongDataLength, b)
  else
    match DerivationPath.read.decode f.data with
    | .error _ => (.error .wrongDataLength, b)
    | .ok (path, _) =>
      match Device.checkPath path with
      | .error s => (.error s, b)
      | .ok () =>
        if f.p1 = 0 then
          let (r, b) := b.asking fun e => e.publicKey path
          (r.map .data, b)
        else (.ok .pending, { b.reset with path := some path, mode := .publicKeyPending })

/-- Clears the registers before the message is parsed. -/
def signMessage (b : Board σ) (f : Frame) : Except StatusWord Output × Board σ :=
  if f.p1 ≠ 0 || f.p2 ≠ 0 then (.error .wrongP1P2, b)
  else if f.data.isEmpty then (.error .wrongDataLength, b)
  else
    let b := b.reset
    match Device.parseMessage f.data b.config.messageLimit with
    | .error s => (.error s, b)
    | .ok m =>
      match Device.messageHash m.message with
      | .error s => (.error s, b)
      | .ok hash =>
        (.ok .pending,
          { b with messageHash := hash, path := some m.path, mode := .messagePending })

/-- Clears the registers before the header is parsed. -/
def txStart (b : Board σ) (data : Bytes) : Except StatusWord Output × Board σ :=
  let b := b.reset
  match StagedTx.start data with
  | .error s => (.error s, b)
  | .ok tx => (.ok (.data []), { b with tx := some tx, mode := .staging })

def staged (b : Board σ) : Except StatusWord StagedTx :=
  match b.mode, b.tx with
  | .staging, some tx => .ok tx
  | _, _ => .error .badState

def txOutput (b : Board σ) (data : Bytes) : Except StatusWord Output × Board σ :=
  match b.staged with
  | .error s => (.error s, b)
  | .ok tx =>
    match tx.pushOutput data with
    | .error s => (.error s, b)
    | .ok tx => (.ok (.data []), { b with tx := some tx })

/-- The check of a complete transaction, which only the mode tells from a staged one. -/
def txReview (b : Board σ) (tx : StagedTx) : Except StatusWord Output × Board σ :=
  match tx.checkFee with
  | .error s => (.error s, b)
  | .ok () =>
    match tx.header.change with
    | none => (.ok .pending, { b with mode := .txPending })
    | some c =>
      match b.asking fun e => e.changeScript c with
      | (.error s, b) => (.error s, b)
      | (.ok script, b) =>
        match tx.checkChange script with
        | .error s => (.error s, b)
        | .ok () => (.ok .pending, { b with mode := .txPending })

def txInput (b : Board σ) (data : Bytes) (last : Bool) : Except StatusWord Output × Board σ :=
  match b.staged with
  | .error s => (.error s, b)
  | .ok tx =>
    match tx.takeInput data last with
    | (.error s, tx) => (.error s, { b with tx := some tx })
    | (.ok (), tx) =>
      let b := { b with tx := some tx }
      if last then b.txReview tx else (.ok (.data []), b)

def nextSignature (b : Board σ) : Except StatusWord Bytes × Board σ :=
  if b.mode ≠ .signing then (.error .badState, b)
  else
    match b.queue with
    | [] => (.error .badState, b)
    | s :: rest =>
      let b := { b with queue := rest }
      let s := { s with hasMore := !rest.isEmpty }
      (Engine.answer s, if s.hasMore then b else b.reset)

def resetOnError {α : Type} : Except StatusWord α × Board σ → Except StatusWord α × Board σ
  | (.ok a, b) => (.ok a, b)
  | (.error s, b) => (.error s, b.reset)

def signTx (b : Board σ) (f : Frame) : Except StatusWord Output × Board σ :=
  match f.phase?, f.continuation? with
  | some phase, some cont =>
    if (phase = .start || phase = .outputs) && cont ≠ .more then (.error .wrongP1P2, b)
    else if phase ≠ .nextSignature && f.data.isEmpty then (.error .wrongDataLength, b)
    else
      match phase with
      | .start => resetOnError (b.txStart f.data)
      | .outputs => resetOnError (b.txOutput f.data)
      | .inputs => resetOnError (b.txInput f.data (cont = .last))
      | .nextSignature =>
        let (r, b) := b.nextSignature
        (r.map .data, b)
  | _, _ => (.error .wrongP1P2, b)

def query (b : Board σ) (r : Except StatusWord Bytes) : Except StatusWord Output × Board σ :=
  (r.map .data, b)

def command (b : Board σ) (f : Frame) : Instruction → Except StatusWord Output × Board σ
  | .getVersion =>
    if f.p1 ≠ 0 || f.p2 ≠ 0 then (.error .wrongP1P2, b)
    else b.query (Engine.answer b.config.version)
  | .getAppName =>
    if f.p1 ≠ 0 || f.p2 ≠ 0 then (.error .wrongP1P2, b)
    else b.query (Engine.answer (AppName.mk b.config.name))
  | .getPublicKey => b.getPublicKey f
  | .signTx => b.signTx f
  | .signMessage => b.signMessage f

def update (b : Board σ) (apdu : Bytes) : Except StatusWord Output × Board σ :=
  match Frame.read.decodeAll apdu with
  | .error _ => (.error .wrongDataLength, b)
  | .ok f =>
    if f.cla = appClass then
      match Instruction.ofCode? f.ins with
      | some ins => b.command f ins
      | none => (.error .insNotSupported, b)
    else if f.cla = dashboardClass then
      if f.ins = dashboardAppInfo then
        b.query (Engine.answer (AppInfo.mk b.config.name b.config.version.text [0]))
      else (.error .insNotSupported, b)
    else (.error .claNotSupported, b)

/-- Signs for every input first; the registers are set once all signatures are there. -/
def approveTx (b : Board σ) : Except StatusWord Bytes × Board σ :=
  match b.tx with
  | none => (.error .badState, b.reset)
  | some tx =>
    match b.asking fun e => e.signInputs tx 0 tx.inputs with
    | (.error s, b) => (.error s, b.reset)
    | (.ok signatures, b) =>
      { b with queue := b.config.order.arrange signatures, mode := .signing }.nextSignature

def approve (b : Board σ) : Except StatusWord Bytes × Board σ :=
  match b.mode with
  | .publicKeyPending =>
    match b.path with
    | none => (.error .badState, b.reset)
    | some path =>
      let (r, b) := b.asking fun e => e.publicKey path
      (r, b.reset)
  | .messagePending =>
    match b.path with
    | none => (.error .badState, b.reset)
    | some path =>
      let (r, b) := b.asking fun e => e.signHash path b.messageHash
      (r, b.reset)
  | .txPending => b.approveTx
  | _ => (.error .badState, b)

def deny (b : Board σ) : Except StatusWord Unit × Board σ :=
  if b.isPending then (.ok (), b.reset) else (.error .badState, b)

def step (b : Board σ) : Event → Except StatusWord Output × Board σ
  | .frame apdu => b.update apdu
  | .approval => (b.approve.1.map .data, b.approve.2)
  | .denial => (b.deny.1.map fun _ => .data [], b.deny.2)

def after (b : Board σ) (evs : List Event) : Board σ :=
  evs.foldl (fun b ev => (b.step ev).2) b

end Board

namespace Engine

variable {σ : Type}

/-- What the registers hold while a device is in the middle of this. -/
def board (e : Engine σ) : Board σ :=
  let cleared := Board.new e.system e.config e.keys
  match e.activity with
  | .idle => cleared
  | .staging tx => { cleared with mode := .staging, tx := some tx }
  | .publicKeyPending path => { cleared with mode := .publicKeyPending, path := some path }
  | .txPending tx => { cleared with mode := .txPending, tx := some tx }
  | .messagePending path hash =>
    { cleared with mode := .messagePending, path := some path, messageHash := hash }
  | .signing tx queue => { cleared with mode := .signing, tx := some tx, queue }

@[simp] theorem board_system (e : Engine σ) : e.board.system = e.system := by
  obtain ⟨system, config, keys, activity⟩ := e
  cases activity <;> rfl

@[simp] theorem board_config (e : Engine σ) : e.board.config = e.config := by
  obtain ⟨system, config, keys, activity⟩ := e
  cases activity <;> rfl

@[simp] theorem board_keys (e : Engine σ) : e.board.keys = e.keys := by
  obtain ⟨system, config, keys, activity⟩ := e
  cases activity <;> rfl

@[simp] theorem board_mode (e : Engine σ) : e.board.mode = e.activity.mode := by
  obtain ⟨system, config, keys, activity⟩ := e
  cases activity <;> rfl

@[simp] theorem board_reset (e : Engine σ) : e.board.reset = e.reset.board := by
  obtain ⟨system, config, keys, activity⟩ := e
  cases activity <;> rfl

@[simp] theorem board_staged (e : Engine σ) : e.board.staged = e.staged := by
  obtain ⟨system, config, keys, activity⟩ := e
  cases activity <;> rfl

@[simp] theorem board_isPending (e : Engine σ) : e.board.isPending = e.isPending := by
  obtain ⟨system, config, keys, activity⟩ := e
  cases activity <;> rfl

/-- Neither reads nor changes what the device is in the middle of. -/
def Indifferent {α : Type} (f : Engine σ → Except StatusWord α × Engine σ) : Prop :=
  ∀ (e : Engine σ) (a : Activity), f { e with activity := a } =
    ((f e).1, { (f e).2 with activity := a })

variable [KeySource σ]

theorem derive_indifferent (path : List UInt32) :
    Indifferent fun e : Engine σ => e.derive path := by
  intro e a
  simp only [derive]
  split <;> rfl

theorem publicKey_indifferent (path : DerivationPath) :
    Indifferent fun e : Engine σ => e.publicKey path := by
  intro e a
  have h := derive_indifferent path.elements e a
  simp only at h
  simp only [publicKey, h]
  rcases e.derive path.elements with ⟨_ | k, e'⟩ <;> rfl

theorem signHash_indifferent (path : DerivationPath) (hash : Block 32) :
    Indifferent fun e : Engine σ => e.signHash path hash := by
  intro e a
  have h := derive_indifferent path.elements e a
  simp only at h
  simp only [signHash, h]
  rcases e.derive path.elements with ⟨_ | k, e'⟩ <;> rfl

theorem changeScript_indifferent (c : ChangeAddress) :
    Indifferent fun e : Engine σ => e.changeScript c := by
  intro e a
  have h := derive_indifferent
    (DerivationPath.address defaultAccount c.addressType c.addressIndex).elements e a
  simp only at h
  simp only [changeScript, h]
  rcases e.derive _ with ⟨_ | k, e'⟩ <;> rfl

theorem signInput_indifferent (tx : StagedTx) (index : Nat) (i : TxInput) :
    Indifferent fun e : Engine σ => e.signInput tx index i := by
  intro e a
  have h := derive_indifferent
    (DerivationPath.address defaultAccount i.addressType i.addressIndex).elements e a
  simp only at h
  simp only [signInput, h]
  rcases e.derive _ with ⟨_ | k, e'⟩
  · rfl
  · simp only
    split <;> rfl

theorem signInputs_indifferent (tx : StagedTx) (index : Nat) (inputs : List TxInput) :
    Indifferent fun e : Engine σ => e.signInputs tx index inputs := by
  induction inputs generalizing index with
  | nil => exact fun e a => rfl
  | cons i rest ih =>
    intro e a
    have h := signInput_indifferent tx index i e a
    simp only at h
    simp only [signInputs, h]
    rcases e.signInput tx index i with ⟨_ | s, e'⟩
    · rfl
    · have h' := ih (index + 1) e' a
      simp only at h'
      simp only [h']
      rcases e'.signInputs tx (index + 1) rest with ⟨_ | signatures, e''⟩ <;> rfl

theorem board_asking {α : Type} {f : Engine σ → Except StatusWord α × Engine σ}
    (hf : Indifferent f) (e : Engine σ) (hask : e.Asks (f e).2) :
    e.board.asking f = ((f e).1, (f e).2.board) := by
  have hnew := hf e .idle
  simp only [Board.asking, board_system, board_config, board_keys, new, hnew]
  congr 1
  simp only [board, hask.system, hask.config, hask.activity]
  split <;> rfl

end Engine

end HardwareSigner
