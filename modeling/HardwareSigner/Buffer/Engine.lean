import HardwareSigner.Buffer.Records
import HardwareSigner.Device.Engine

/-!
A device at work on the bytes of a command: all that it reads of a payload and all that it writes
into an answer is reached by its place.
-/

namespace HardwareSigner.Buffer

variable {σ : Type}

/-! ### Requests -/

/-- Two steps have to be there before they are looked at. -/
def checkPath (p : DerivationPath) : Outcome StatusWord Unit := do
  if p.depth < 2 || 5 < p.depth then Outcome.error .wrongBip32PathLen
  if (← get p.elements 0) ≠ purpose then Outcome.error .wrongBip32Purpose
  if (← get p.elements 1) ≠ coinType then Outcome.error .wrongBip32CoinType
  match p.elements[3]? with
  | some t => if changeAddress.toUInt32 < t then Outcome.error .wrongBip32Type else pure ()
  | none => pure ()

def uint32At? (b : Bytes) (offset : Nat) : Outcome StatusWord (Option UInt32) := do
  if offset + 4 ≤ b.length then
    let d := (b.drop offset).take 4
    let n := Bytes.toNatBE [← get d 0, ← get d 1, ← get d 2, ← get d 3]
    pure (some (UInt32.ofNat n))
  else pure none

def parseMessage (b : Bytes) (limit : Nat) : Outcome StatusWord Device.MessageToSign := do
  let addressType ←
    match b.head? with
    | some t => if t ≤ changeAddress then pure t else Outcome.error .messageAddressTypeFail
    | none => Outcome.error .messageAddressTypeFail
  let addressIndex ←
    match ← uint32At? b 1 with
    | some i => pure i
    | none => Outcome.error .messageAddressIndexFail
  let account ←
    match ← uint32At? b 5 with
    | some a => if hardened ≤ a then pure a else Outcome.error .messageAddressTypeFail
    | none => Outcome.error .messageAddressTypeFail
  let length ←
    match b[9]? with
    | some n => pure n.toNat
    | none => Outcome.error .messageLenParsingFail
  if length = 0 then Outcome.error .messageTooShort
  if limit < length then Outcome.error .messageTooLong
  if b.length < 10 + length then Outcome.error .messageParsingFail
  if b.length ≠ 10 + length then Outcome.error .messageUnexpected
  let path ← DerivationPath.fill
    [purpose, coinType, account, addressType.toUInt32, addressIndex]
  pure ⟨path, ← between b 10 (10 + length)⟩

def messageHash (message : Bytes) : Outcome StatusWord (Block 32) := do
  let h ← Outcome.of (Device.hasher "PersonalMessageSigningHash")
  block 32 (h.update message).finish.bytes

def pushes {ε : Type} (p : DerivationPath) : List UInt32 → Outcome ε DerivationPath
  | [] => .ok p
  | e :: es => do pushes (← p.push e) es

def address {ε : Type} (account : UInt32) (addressType : UInt8) (index : UInt32) :
    Outcome ε DerivationPath :=
  pushes .root [purpose, coinType, account ||| hardened, addressType.toUInt32, index]

/-! ### Staging -/

/-- Bytes that are no record are no part of a transaction. -/
def staged {α : Type} (r : Outcome WireError α) : Outcome StatusWord α :=
  r.mapError fun _ => .txParsingFail

def start (data : Bytes) : Outcome StatusWord StagedTx := do
  let (h, _) ← staged (Codec.parse data)
  if StagedTx.accepts h then pure ⟨h, [], []⟩ else Outcome.error .txParsingFail

def pushOutput (tx : StagedTx) (data : Bytes) : Outcome StatusWord StagedTx := do
  if !tx.inputs.isEmpty then Outcome.error .badState
  if tx.header.numOutputs.toNat ≤ tx.outputs.length then Outcome.error .txParsingFail
  let o ← staged (whole data)
  pure { tx with outputs := tx.outputs ++ [o] }

def pushInput (tx : StagedTx) (data : Bytes) (last : Bool) : Outcome StatusWord StagedTx := do
  if tx.outputs.length ≠ tx.header.numOutputs.toNat then Outcome.error .badState
  if tx.header.numInputs.toNat ≤ tx.inputs.length then Outcome.error .txParsingFail
  let i : TxInput ← staged (whole data)
  if changeAddress < i.addressType then Outcome.error .txParsingFail
  if last && tx.inputs.length + 1 ≠ tx.header.numInputs.toNat then Outcome.error .txParsingFail
  pure { tx with inputs := tx.inputs ++ [i] }

/-! ### Commands -/

/-- What a step of a device gives, and the device after it. -/
abbrev Step (σ α : Type) := Outcome StatusWord α × Engine σ

namespace Step

variable {α β : Type}

def of (x : Except StatusWord α × Engine σ) : Step σ α := (.of x.1, x.2)

def andThen (x : Step σ α) (next : α → Engine σ → Step σ β) : Step σ β :=
  match x with
  | (.ok a, e) => next a e
  | (.error s, e) => (.error s, e)
  | (.fault f, e) => (.fault f, e)

/-- A step that fails drops the exchange. -/
def dropOnError : Step σ α → Step σ α
  | (.error s, e) => (.error s, e.reset)
  | x => x

end Step

open Step

def answer {α : Type} [Codec α] (r : α) : Outcome StatusWord Bytes :=
  (written r).mapError fun _ => .wrongResponseLength

def output (x : Step σ Bytes) : Step σ Output := andThen x fun b e => (.ok (.data b), e)

def nextSignature (e : Engine σ) : Step σ Bytes :=
  match e.activity with
  | .signing tx (s :: rest) =>
    (answer { s with hasMore := !rest.isEmpty },
      if rest.isEmpty then e.reset else { e with activity := .signing tx rest })
  | _ => (.error .badState, e)

section Keys

variable [KeySource σ]

def publicKey (e : Engine σ) (path : DerivationPath) : Step σ Bytes :=
  andThen (of (e.derive path.elements)) fun k e =>
    (answer (PublicKey.mk (e.system.publicKey k.secret) k.chainCode), e)

def getPublicKey (e : Engine σ) (f : Frame) : Step σ Output :=
  if 1 < f.p1 || f.p2 ≠ 0 then (.error .wrongP1P2, e)
  else if f.data.isEmpty then (.error .wrongDataLength, e)
  else
    andThen ((Codec.parse f.data).mapError fun _ => .wrongDataLength, e) fun (path, _) e =>
    andThen (checkPath path, e) fun _ e =>
      if f.p1 = 0 then output (publicKey e path)
      else (.ok .pending, { e with activity := .publicKeyPending path })

def signMessage (e : Engine σ) (f : Frame) : Step σ Output :=
  if f.p1 ≠ 0 || f.p2 ≠ 0 then (.error .wrongP1P2, e)
  else if f.data.isEmpty then (.error .wrongDataLength, e)
  else
    andThen (parseMessage f.data e.config.messageLimit, e.reset) fun m e =>
    andThen (messageHash m.message, e) fun hash e =>
      (.ok .pending, { e with activity := .messagePending m.path hash })

def changeScript (e : Engine σ) (c : ChangeAddress) : Step σ Bytes :=
  andThen (address defaultAccount c.addressType c.addressIndex, e) fun path e =>
  andThen (of (e.derive path.elements)) fun k e =>
    (.ok (Device.p2pkScript (e.system.xOnly k.secret)), e)

def review (e : Engine σ) (tx : StagedTx) : Step σ Output :=
  andThen (.of tx.checkFee, e) fun _ e =>
    match tx.header.change with
    | none => (.ok .pending, { e with activity := .txPending tx })
    | some c =>
      andThen (changeScript e c) fun script e =>
      andThen (.of (tx.checkChange script), e) fun _ e =>
        (.ok .pending, { e with activity := .txPending tx })

def stageStart (e : Engine σ) (data : Bytes) : Step σ Output :=
  andThen (start data, e) fun tx e => (.ok (.data []), { e with activity := .staging tx })

def stageOutput (e : Engine σ) (data : Bytes) : Step σ Output :=
  andThen (.of e.staged, e) fun tx e =>
  andThen (pushOutput tx data, e) fun tx e =>
    (.ok (.data []), { e with activity := .staging tx })

def stageInput (e : Engine σ) (data : Bytes) (last : Bool) : Step σ Output :=
  andThen (.of e.staged, e) fun tx e =>
  andThen (pushInput tx data last, e) fun tx e =>
    if last then review e tx else (.ok (.data []), { e with activity := .staging tx })

def signTx (e : Engine σ) (f : Frame) : Step σ Output :=
  match f.phase?, f.continuation? with
  | some phase, some cont =>
    if (phase = .start || phase = .outputs) && cont ≠ .more then (.error .wrongP1P2, e)
    else if phase ≠ .nextSignature && f.data.isEmpty then (.error .wrongDataLength, e)
    else
      match phase with
      | .nextSignature => output (nextSignature e)
      | .start => dropOnError (stageStart e f.data)
      | .outputs => dropOnError (stageOutput e f.data)
      | .inputs => dropOnError (stageInput e f.data (cont = .last))
  | _, _ => (.error .wrongP1P2, e)

def command (e : Engine σ) (f : Frame) : Instruction → Step σ Output
  | .getVersion =>
    if f.p1 ≠ 0 || f.p2 ≠ 0 then (.error .wrongP1P2, e)
    else output (answer e.config.version, e)
  | .getAppName =>
    if f.p1 ≠ 0 || f.p2 ≠ 0 then (.error .wrongP1P2, e)
    else output (answer (AppName.mk e.config.name), e)
  | .getPublicKey => getPublicKey e f
  | .signTx => signTx e f
  | .signMessage => signMessage e f

def update (e : Engine σ) (apdu : Bytes) : Step σ Output :=
  andThen ((Codec.parse apdu).mapError fun _ => .wrongDataLength, e) fun ((f : Frame), _) e =>
    if f.cla = appClass then
      match Instruction.ofCode? f.ins with
      | some ins => command e f ins
      | none => (.error .insNotSupported, e)
    else if f.cla = dashboardClass then
      if f.ins = dashboardAppInfo then output (answer e.appInfo, e)
      else (.error .insNotSupported, e)
    else (.error .claNotSupported, e)

end Keys

end HardwareSigner.Buffer
