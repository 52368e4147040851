import HardwareSigner.Frame
import HardwareSigner.Key.Source
import HardwareSigner.Record.Response
import HardwareSigner.Device.Config
import HardwareSigner.Device.Digest
import HardwareSigner.Device.Request

/-!
The device side of the protocol. A command frame is answered with data, refused with a status
word, or left pending until the operator approves or denies it. One exchange runs at a time; a
new one displaces it, and a fault while a transaction is staged ends it.
-/

namespace HardwareSigner

inductive Activity where
  | idle
  | staging (tx : StagedTx)
  | publicKeyPending (path : DerivationPath)
  | txPending (tx : StagedTx)
  | messagePending (path : DerivationPath) (hash : Block 32)
  /-- Approved, with the signatures that were not fetched yet. -/
  | signing (tx : StagedTx) (queue : List TxSignature)
  deriving DecidableEq

namespace Activity

def name : Activity → String
  | idle => "Init"
  | staging _ => "Staging"
  | publicKeyPending _ => "PublicKeyPending"
  | txPending _ => "TxPending"
  | messagePending .. => "MessagePending"
  | signing .. => "Signing"

def isPending : Activity → Bool
  | publicKeyPending _ | txPending _ | messagePending .. => true
  | _ => false

end Activity

inductive Output where
  | data (b : Bytes)
  | pending
  deriving DecidableEq

structure Engine (σ : Type) where
  system : SignatureSystem
  config : DeviceConfig
  keys : σ
  activity : Activity

namespace Engine

variable {σ : Type} [KeySource σ]

def new (system : SignatureSystem) (config : DeviceConfig) (keys : σ) : Engine σ :=
  ⟨system, config, keys, .idle⟩

def isPending (e : Engine σ) : Bool := e.activity.isPending

def reset (e : Engine σ) : Engine σ := { e with activity := .idle }

def answer {α : Type} [Record α] (r : α) : Except StatusWord Bytes :=
  match Record.encode r with
  | .ok b => .ok b
  | .error _ => .error .wrongResponseLength

def derive (e : Engine σ) (path : List UInt32) : Except StatusWord DerivedKey × Engine σ :=
  match KeySource.derive e.keys path with
  | (some k, keys) => (.ok k, { e with keys })
  | (none, keys) => (.error .signatureFail, { e with keys })

def publicKey (e : Engine σ) (path : DerivationPath) : Except StatusWord Bytes × Engine σ :=
  match e.derive path.elements with
  | (.ok k, e) => (answer (PublicKey.mk (e.system.publicKey k.secret) k.chainCode), e)
  | (.error s, e) => (.error s, e)

/-- Shows a key at once, or leaves it pending where it is to be confirmed. -/
def getPublicKey (e : Engine σ) (f : Frame) : Except StatusWord Output × Engine σ :=
  if 1 < f.p1 || f.p2 ≠ 0 then (.error .wrongP1P2, e)
  else if f.data.isEmpty then (.error .wrongDataLength, e)
  else
    match DerivationPath.read.decode f.data with
    | .error _ => (.error .wrongDataLength, e)
    | .ok (path, _) =>
      match Device.checkPath path with
      | .error s => (.error s, e)
      | .ok () =>
        if f.p1 = 0 then
          match e.publicKey path with
          | (.ok b, e) => (.ok (.data b), e)
          | (.error s, e) => (.error s, e)
        else (.ok .pending, { e with activity := .publicKeyPending path })

/-- Displaces the exchange under way, even where the message is then refused. -/
def signMessage (e : Engine σ) (f : Frame) : Except StatusWord Output × Engine σ :=
  if f.p1 ≠ 0 || f.p2 ≠ 0 then (.error .wrongP1P2, e)
  else if f.data.isEmpty then (.error .wrongDataLength, e)
  else
    match Device.parseMessage f.data e.config.messageLimit with
    | .error s => (.error s, e.reset)
    | .ok m =>
      match Device.messageHash m.message with
      | .error s => (.error s, e.reset)
      | .ok hash => (.ok .pending, { e with activity := .messagePending m.path hash })

def changeScript (e : Engine σ) (c : ChangeAddress) : Except StatusWord Bytes × Engine σ :=
  match e.derive (DerivationPath.address defaultAccount c.addressType c.addressIndex).elements with
  | (.ok k, e) => (.ok (Device.p2pkScript (e.system.xOnly k.secret)), e)
  | (.error s, e) => (.error s, e)

/-- Judges a complete transaction, which is pending if it passes. -/
def review (e : Engine σ) (tx : StagedTx) : Except StatusWord Output × Engine σ :=
  match tx.checkFee with
  | .error s => (.error s, e)
  | .ok () =>
    match tx.header.change with
    | none => (.ok .pending, { e with activity := .txPending tx })
    | some c =>
      match e.changeScript c with
      | (.error s, e) => (.error s, e)
      | (.ok script, e) =>
        match tx.checkChange script with
        | .error s => (.error s, e)
        | .ok () => (.ok .pending, { e with activity := .txPending tx })

def staged (e : Engine σ) : Except StatusWord StagedTx :=
  match e.activity with
  | .staging tx => .ok tx
  | _ => .error .badState

def stageStart (e : Engine σ) (data : Bytes) : Except StatusWord Output × Engine σ :=
  match StagedTx.start data with
  | .error s => (.error s, e)
  | .ok tx => (.ok (.data []), { e with activity := .staging tx })

def stageOutput (e : Engine σ) (data : Bytes) : Except StatusWord Output × Engine σ :=
  match e.staged >>= fun tx => tx.pushOutput data with
  | .error s => (.error s, e)
  | .ok tx => (.ok (.data []), { e with activity := .staging tx })

def stageInput (e : Engine σ) (data : Bytes) (last : Bool) :
    Except StatusWord Output × Engine σ :=
  match e.staged >>= fun tx => tx.pushInput data last with
  | .error s => (.error s, e)
  | .ok tx =>
    if last then e.review tx else (.ok (.data []), { e with activity := .staging tx })

/-- Hands out the signature at the head of the queue; the last one ends the exchange. -/
def nextSignature (e : Engine σ) : Except StatusWord Bytes × Engine σ :=
  match e.activity with
  | .signing tx (s :: rest) =>
    (answer { s with hasMore := !rest.isEmpty },
      if rest.isEmpty then e.reset else { e with activity := .signing tx rest })
  | _ => (.error .badState, e)

/-- A fault at any of the staging phases drops the exchange. -/
def dropOnError {α : Type} : Except StatusWord α × Engine σ → Except StatusWord α × Engine σ
  | (.ok a, e) => (.ok a, e)
  | (.error s, e) => (.error s, e.reset)

def signTx (e : Engine σ) (f : Frame) : Except StatusWord Output × Engine σ :=
  match f.phase?, f.continuation? with
  | some phase, some cont =>
    -- header and outputs never end the exchange
    if (phase = .start || phase = .outputs) && cont ≠ .more then (.error .wrongP1P2, e)
    else
      match phase with
      | .nextSignature =>
        match e.nextSignature with
        | (.ok b, e) => (.ok (.data b), e)
        | (.error s, e) => (.error s, e)
      | .start =>
        if f.data.isEmpty then (.error .wrongDataLength, e)
        else dropOnError (e.stageStart f.data)
      | .outputs =>
        if f.data.isEmpty then (.error .wrongDataLength, e)
        else dropOnError (e.stageOutput f.data)
      | .inputs =>
        if f.data.isEmpty then (.error .wrongDataLength, e)
        else dropOnError (e.stageInput f.data (cont = .last))
  | _, _ => (.error .wrongP1P2, e)

def query (e : Engine σ) (r : Except StatusWord Bytes) : Except StatusWord Output × Engine σ :=
  match r with
  | .ok b => (.ok (.data b), e)
  | .error s => (.error s, e)

def appInfo (e : Engine σ) : AppInfo := ⟨e.config.name, e.config.version.text, [0]⟩

def command (e : Engine σ) (f : Frame) : Instruction → Except StatusWord Output × Engine σ
  | .getVersion =>
    if f.p1 ≠ 0 || f.p2 ≠ 0 then (.error .wrongP1P2, e) else e.query (answer e.config.version)
  | .getAppName =>
    if f.p1 ≠ 0 || f.p2 ≠ 0 then (.error .wrongP1P2, e)
    else e.query (answer (AppName.mk e.config.name))
  | .getPublicKey => e.getPublicKey f
  | .signTx => e.signTx f
  | .signMessage => e.signMessage f

def update (e : Engine σ) (apdu : Bytes) : Except StatusWord Output × Engine σ :=
  match Frame.read.decodeAll apdu with
  | .error _ => (.error .wrongDataLength, e)
  | .ok f =>
    if f.cla = appClass then
      match Instruction.ofCode? f.ins with
      | some ins => e.command f ins
      | none => (.error .insNotSupported, e)
    else if f.cla = dashboardClass then
      if f.ins = dashboardAppInfo then e.query (answer e.appInfo)
      else (.error .insNotSupported, e)
    else (.error .claNotSupported, e)

theorem length_signature_le (b : Block 64) : b.bytes.length ≤ maxSignature := by
  rw [b.length_bytes]; decide

def signHash (e : Engine σ) (path : DerivationPath) (hash : Block 32) :
    Except StatusWord Bytes × Engine σ :=
  match e.derive path.elements with
  | (.error s, e) => (.error s, e)
  | (.ok k, e) =>
    let signature := e.system.sign k.secret hash
    (answer (MessageSignature.mk signature.bytes (length_signature_le signature) hash), e)

def signInput (e : Engine σ) (tx : StagedTx) (index : Nat) (i : TxInput) :
    Except StatusWord TxSignature × Engine σ :=
  match e.derive (DerivationPath.address defaultAccount i.addressType i.addressIndex).elements with
  | (.error s, e) => (.error s, e)
  | (.ok k, e) =>
    match Device.sighash tx index (e.system.xOnly k.secret) with
    | .error s => (.error s, e)
    | .ok hash =>
      let signature := e.system.sign k.secret hash
      (.ok ⟨false, UInt8.ofNat index, .schnorr, signature.bytes, length_signature_le signature,
        e.system.parity k.secret, hash⟩, e)

/-- Signs for the inputs from an index on, up to the first that fails. -/
def signInputs (e : Engine σ) (tx : StagedTx) (index : Nat) :
    List TxInput → Except StatusWord (List TxSignature) × Engine σ
  | [] => (.ok [], e)
  | i :: rest =>
    match e.signInput tx index i with
    | (.error s, e) => (.error s, e)
    | (.ok signature, e) =>
      match e.signInputs tx (index + 1) rest with
      | (.error s, e) => (.error s, e)
      | (.ok signatures, e) => (.ok (signature :: signatures), e)

/-- Signs the whole transaction and hands out the first signature. -/
def approveTx (e : Engine σ) (tx : StagedTx) : Except StatusWord Bytes × Engine σ :=
  match e.signInputs tx 0 tx.inputs with
  | (.error s, e) => (.error s, e.reset)
  | (.ok signatures, e) =>
    let queue := match e.config.order with
      | .declared => signatures
      | .reversed => signatures.reverse
    { e with activity := .signing tx queue }.nextSignature

/-- The operator approves what is pending; keys and messages end their exchange either way. -/
def approve (e : Engine σ) : Except StatusWord Bytes × Engine σ :=
  match e.activity with
  | .publicKeyPending path =>
    let (r, e) := e.publicKey path
    (r, e.reset)
  | .messagePending path hash =>
    let (r, e) := e.signHash path hash
    (r, e.reset)
  | .txPending tx => e.approveTx tx
  | _ => (.error .badState, e)

def deny (e : Engine σ) : Except StatusWord Unit × Engine σ :=
  if e.isPending then (.ok (), e.reset) else (.error .badState, e)

end Engine

end HardwareSigner
