import HardwareSigner.Buffer.Engine
import HardwareSigner.Proofs.Buffer.Records
import HardwareSigner.Proofs.Buffer.Transaction

/-! A device reaches for no place that is not there, whatever command it gets and whatever it is in
the middle of. -/

namespace HardwareSigner

namespace Buffer

/-! ### Requests -/

theorem checkPath_eq (p : DerivationPath) : checkPath p = .of (Device.checkPath p) := by
  refine Outcome.ite_eq (fun _ => rfl) fun h => ?_
  have hlen : 1 < p.elements.length := by
    have hdepth : p.depth = p.elements.length := rfl
    simp only [Bool.or_eq_true, decide_eq_true_eq, not_or] at h
    omega
  rw [get_eq (Nat.zero_lt_of_lt hlen), Outcome.ok_bind, get_eq hlen,
    Outcome.ok_bind, List.getElem?_eq_getElem (Nat.zero_lt_of_lt hlen),
    List.getElem?_eq_getElem hlen]
  simp only [ne_eq, Option.some_inj]
  refine Outcome.ite_eq (fun _ => rfl) fun _ => ?_
  refine Outcome.ite_eq (fun _ => rfl) fun _ => ?_
  cases p.elements[3]? with
  | none => rfl
  | some t => exact Outcome.ite_eq (fun _ => rfl) fun _ => rfl

theorem uint32At?_eq (b : Bytes) (offset : Nat) :
    uint32At? b offset = .ok (Device.uint32At? b offset) := by
  rw [uint32At?, Device.uint32At?]
  by_cases h : offset + 4 ≤ b.length
  · rw [if_pos h, if_pos h]
    have hlen := Reader.length_take_drop h
    generalize (b.drop offset).take 4 = d at hlen
    obtain ⟨x, y, z, w, rfl⟩ := List.length_eq_four.1 hlen
    rfl
  · rw [if_neg h, if_neg h]
    rfl

theorem parseMessage_eq (b : Bytes) (limit : Nat) :
    parseMessage b limit = .of (Device.parseMessage b limit) := by
  rw [parseMessage, Device.parseMessage, List.head?_eq_getElem?]
  cases b[0]? with
  | none => rfl
  | some addressType =>
  refine Outcome.ite_eq (fun _ => ?_) fun _ => rfl
  simp only [Outcome.pure_eq, Outcome.ok_bind, pure_bind, uint32At?_eq]
  cases Device.uint32At? b 1 with
  | none => rfl
  | some addressIndex =>
  cases Device.uint32At? b 5 with
  | none => rfl
  | some account =>
  refine Outcome.ite_eq (fun _ => ?_) fun _ => rfl
  cases b[9]? with
  | none => rfl
  | some n =>
  refine Outcome.ite_eq (fun _ => rfl) fun _ => Outcome.ite_eq (fun _ => rfl) fun _ =>
    Outcome.ite_eq (fun _ => rfl) fun _ => Outcome.ite_eq (fun _ => rfl) fun hlen => ?_
  rw [between_eq rfl (not_not.1 hlen).ge]
  rfl

theorem messageHash_eq (message : Bytes) :
    messageHash message = .of (Device.messageHash message) := by
  rw [messageHash, Device.messageHash, Outcome.of_bind]
  cases Device.hasher "PersonalMessageSigningHash" with
  | error e => rfl
  | ok h => exact block_eq (h.update message).finish.length_bytes

theorem address_eq {ε : Type} (account : UInt32) (addressType : UInt8) (index : UInt32) :
    (address account addressType index : Outcome ε DerivationPath) =
      .ok (.address account addressType index) := rfl

/-! ### Staging -/

theorem start_eq (data : Bytes) : start data = .of (StagedTx.start data) := by
  have hwhole : ∀ b a rest, TxHeader.read b = .ok (a, rest) → rest = [] :=
    fun _ _ _ h => (TxHeader.read_eq_ok.1 h).2
  rw [start, TxHeader.ranged.parse_whole hwhole, StagedTx.start]
  change staged (.of ((TxHeader.read.decodeAll data).map _)) >>= _ = _
  cases TxHeader.read.decodeAll data with
  | error e => rfl
  | ok h => exact Outcome.ite_eq (fun _ => rfl) fun _ => rfl

theorem pushOutput_eq (tx : StagedTx) (data : Bytes) :
    pushOutput tx data = .of (tx.pushOutput data) := by
  rw [pushOutput, StagedTx.pushOutput]
  refine Outcome.ite_eq (fun _ => rfl) fun _ => Outcome.ite_eq (fun _ => rfl) fun _ => ?_
  rw [TxOutput.ranged.whole_eq TxOutput.advances]
  change staged (.of (TxOutput.read.decodeAll data)) >>= _ = _
  cases TxOutput.read.decodeAll data with
  | error e => rfl
  | ok o => rfl

theorem pushInput_eq (tx : StagedTx) (data : Bytes) (last : Bool) :
    pushInput tx data last = .of (tx.pushInput data last) := by
  rw [pushInput, StagedTx.pushInput]
  refine Outcome.ite_eq (fun _ => rfl) fun _ => Outcome.ite_eq (fun _ => rfl) fun _ => ?_
  rw [TxInput.ranged.whole_eq TxInput.advances]
  change staged (.of (TxInput.read.decodeAll data)) >>= _ = _
  cases TxInput.read.decodeAll data with
  | error e => rfl
  | ok i => exact Outcome.ite_eq (fun _ => rfl) fun _ => Outcome.ite_eq (fun _ => rfl) fun _ => rfl

/-! ### Commands -/

theorem answer_eq {α : Type} [Record α] [Codec α] (h : Ranged α) (r : α) :
    answer r = .of (Engine.answer r) := by
  rw [answer, (h.written r).eq_of, Engine.answer]
  cases Record.encode r with
  | error e => rfl
  | ok b => rfl

variable {σ : Type}

namespace Step

variable {α β : Type}

@[simp] theorem andThen_ok (a : α) (e : Engine σ) (next : α → Engine σ → Step σ β) :
    andThen (.ok a, e) next = next a e := rfl

@[simp] theorem andThen_error (s : StatusWord) (e : Engine σ) (next : α → Engine σ → Step σ β) :
    andThen (.error s, e) next = (.error s, e) := rfl

theorem output_of (x : Except StatusWord Bytes × Engine σ) :
    output (of x) = of (match x with
      | (.ok b, e) => (.ok (.data b), e)
      | (.error s, e) => (.error s, e)) := by
  obtain ⟨r, e⟩ := x
  cases r with
  | error s => rfl
  | ok b => rfl

theorem output_query (e : Engine σ) (r : Except StatusWord Bytes) :
    output (.of r, e) = of (e.query r) := by
  cases r with
  | error s => rfl
  | ok b => rfl

theorem dropOnError_of (x : Except StatusWord α × Engine σ) :
    dropOnError (of x) = of (Engine.dropOnError x) := by
  obtain ⟨r, e⟩ := x
  cases r with
  | error s => rfl
  | ok a => rfl

theorem ite_of {c : Prop} [Decidable c] {x x' : Step σ α}
    {y y' : Except StatusWord α × Engine σ} (hc : c → x' = of y') (hn : ¬c → x = of y) :
    (if c then x' else x) = of (if c then y' else y) := by
  by_cases h : c
  · rw [if_pos h, if_pos h, hc h]
  · rw [if_neg h, if_neg h, hn h]

end Step

open Step

theorem nextSignature_eq (e : Engine σ) : nextSignature e = of e.nextSignature := by
  rw [nextSignature, Engine.nextSignature]
  cases e.activity with
  | signing tx queue =>
    cases queue with
    | nil => rfl
    | cons s rest =>
      dsimp only
      rw [answer_eq TxSignature.ranged]
      rfl
  | _ => rfl

theorem signMessage_eq (e : Engine σ) (f : Frame) :
    signMessage e f = of (e.signMessage f) := by
  rw [signMessage, Engine.signMessage]
  refine ite_of (fun _ => rfl) fun _ => ite_of (fun _ => rfl) fun _ => ?_
  rw [parseMessage_eq]
  cases Device.parseMessage f.data e.config.messageLimit with
  | error s => rfl
  | ok m =>
    rw [Outcome.of_ok, andThen_ok, messageHash_eq]
    dsimp only
    cases Device.messageHash m.message with
    | error s => rfl
    | ok hash => rfl

theorem stageStart_eq (e : Engine σ) (data : Bytes) :
    stageStart e data = of (e.stageStart data) := by
  rw [stageStart, start_eq, Engine.stageStart]
  cases StagedTx.start data with
  | error s => rfl
  | ok tx => rfl

theorem stageOutput_eq (e : Engine σ) (data : Bytes) :
    stageOutput e data = of (e.stageOutput data) := by
  rw [stageOutput, Engine.stageOutput]
  cases e.staged with
  | error s => rfl
  | ok tx =>
    have hpush : (Except.ok tx >>= fun tx => tx.pushOutput data) = tx.pushOutput data := rfl
    rw [Outcome.of_ok, andThen_ok, pushOutput_eq, hpush]
    cases tx.pushOutput data with
    | error s => rfl
    | ok tx => rfl

section Keys

variable [KeySource σ]

theorem publicKey_eq (e : Engine σ) (path : DerivationPath) :
    publicKey e path = of (e.publicKey path) := by
  rw [publicKey, Engine.publicKey]
  rcases e.derive path.elements with ⟨_ | k, e⟩
  · rfl
  · change (answer _, e) = _
    rw [answer_eq PublicKey.ranged]
    rfl

theorem getPublicKey_eq (e : Engine σ) (f : Frame) :
    getPublicKey e f = of (e.getPublicKey f) := by
  rw [getPublicKey, Engine.getPublicKey]
  refine ite_of (fun _ => rfl) fun _ => ite_of (fun _ => rfl) fun _ => ?_
  rw [DerivationPath.parse_eq]
  change andThen ((Outcome.of (DerivationPath.read.decode f.data)).mapError _, e) _ = _
  cases DerivationPath.read.decode f.data with
  | error _ => rfl
  | ok p =>
    obtain ⟨path, n⟩ := p
    rw [Outcome.of_ok, Outcome.mapError_ok, andThen_ok]
    dsimp only
    rw [checkPath_eq]
    cases Device.checkPath path with
    | error s => rfl
    | ok u =>
      refine ite_of (fun _ => ?_) fun _ => rfl
      exact (congrArg output (publicKey_eq e path)).trans (output_of _)

theorem changeScript_eq (e : Engine σ) (c : ChangeAddress) :
    changeScript e c = of (e.changeScript c) := by
  rw [changeScript, address_eq, andThen_ok, Engine.changeScript]
  rcases e.derive _ with ⟨_ | k, e⟩
  · rfl
  · rfl

theorem review_eq (e : Engine σ) (tx : StagedTx) : review e tx = of (e.review tx) := by
  rw [review, Engine.review]
  cases tx.checkFee with
  | error s => rfl
  | ok u =>
    rw [Outcome.of_ok, andThen_ok]
    dsimp only
    cases tx.header.change with
    | none => rfl
    | some c =>
      dsimp only
      rw [changeScript_eq]
      rcases e.changeScript c with ⟨_ | script, e⟩
      · rfl
      · rw [of, Outcome.of_ok, andThen_ok]
        dsimp only
        cases tx.checkChange script with
        | error s => rfl
        | ok u => rfl

theorem stageInput_eq (e : Engine σ) (data : Bytes) (last : Bool) :
    stageInput e data last = of (e.stageInput data last) := by
  rw [stageInput, Engine.stageInput]
  cases e.staged with
  | error s => rfl
  | ok tx =>
    have hpush : (Except.ok tx >>= fun tx => tx.pushInput data last) = tx.pushInput data last :=
      rfl
    rw [Outcome.of_ok, andThen_ok, pushInput_eq, hpush]
    cases tx.pushInput data last with
    | error s => rfl
    | ok tx => exact ite_of (fun _ => review_eq e tx) fun _ => rfl

theorem signTx_eq (e : Engine σ) (f : Frame) : signTx e f = of (e.signTx f) := by
  rw [signTx, Engine.signTx]
  cases f.phase? with
  | none => rfl
  | some phase =>
  cases f.continuation? with
  | none => rfl
  | some cont =>
  refine ite_of (fun _ => rfl) fun _ => ?_
  cases phase with
  | nextSignature =>
    rw [nextSignature_eq, output_of]
    rfl
  | start =>
    change (if f.data.isEmpty then _ else _) = _
    refine ite_of (fun _ => rfl) fun _ => ?_
    rw [stageStart_eq, dropOnError_of]
  | outputs =>
    change (if f.data.isEmpty then _ else _) = _
    refine ite_of (fun _ => rfl) fun _ => ?_
    rw [stageOutput_eq, dropOnError_of]
  | inputs =>
    change (if f.data.isEmpty then _ else _) = _
    refine ite_of (fun _ => rfl) fun _ => ?_
    rw [stageInput_eq, dropOnError_of]

theorem command_eq (e : Engine σ) (f : Frame) (ins : Instruction) :
    command e f ins = of (e.command f ins) := by
  cases ins with
  | getVersion =>
    refine ite_of (fun _ => rfl) fun _ => ?_
    rw [answer_eq AppVersion.ranged]
    exact output_query e _
  | getAppName =>
    refine ite_of (fun _ => rfl) fun _ => ?_
    rw [answer_eq AppName.ranged]
    exact output_query e _
  | getPublicKey => exact getPublicKey_eq e f
  | signTx => exact signTx_eq e f
  | signMessage => exact signMessage_eq e f

theorem update_eq (e : Engine σ) (apdu : Bytes) : update e apdu = of (e.update apdu) := by
  have hwhole : ∀ b a rest, Frame.read b = .ok (a, rest) → rest = [] :=
    fun _ _ _ h => (Frame.read_eq_ok.1 h).2
  rw [update, Frame.ranged.parse_whole hwhole, Engine.update]
  change andThen ((Outcome.of ((Frame.read.decodeAll apdu).map _)).mapError _, e) _ = _
  cases Frame.read.decodeAll apdu with
  | error _ => rfl
  | ok f =>
    refine ite_of (fun _ => ?_) fun _ => ite_of (fun _ => ite_of (fun _ => ?_) fun _ => rfl)
      fun _ => rfl
    · cases Instruction.ofCode? f.ins with
      | none => rfl
      | some ins => exact command_eq e f ins
    · rw [answer_eq AppInfo.ranged]
      exact output_query e _

end Keys

end Buffer

open Buffer in
/-- No codec reaches for a place that is not there: not for any bytes that a record, a transaction
or a message is looked for in, not for any record and any buffer it is written into, and not for
any command that a device gets in any state. -/
theorem codecs_in_range :
    (RangedRequest VersionQuery ∧ RangedRequest NameQuery ∧ RangedRequest AppInfoQuery ∧
      RangedRequest NextSignatureQuery ∧ RangedRequest PublicKeyRequest ∧
      RangedRequest MessageRequest ∧ RangedRequest TxHeader ∧ RangedRequest TxOutput ∧
      RangedRequest TxInput) ∧
    (Ranged AppVersion ∧ Ranged AppName ∧ Ranged AppInfo ∧ Ranged DerivationPath ∧
      Ranged PublicKey ∧ Ranged MessageSignature ∧ Ranged TxSignature ∧ Ranged Frame ∧
      Ranged Answer) ∧
    (∀ k b, (Response.parse k b).InRange (Response.decode k b)) ∧
    (∀ b, (Transaction.parse b).InRange (Transaction.deserialize b)) ∧
    (∀ ps, (Transaction.parsePayloads ps).InRange (Transaction.ofPayloads ps)) ∧
    (∀ b, (PersonalMessage.parse b).InRange (PersonalMessage.deserialize b)) ∧
    ∀ (σ : Type) [KeySource σ] (e : Engine σ) apdu,
      (update e apdu).1.InRange (e.update apdu).1 ∧ (update e apdu).2 = (e.update apdu).2 := by
  refine ⟨?requests, ?others, ?response, ?transaction, ?payloads, ?message, ?device⟩
  case requests =>
    exact ⟨.of_ranged VersionQuery.ranged, .of_ranged NameQuery.ranged,
      .of_ranged AppInfoQuery.ranged, .of_ranged NextSignatureQuery.ranged,
      .of_ranged PublicKeyRequest.ranged, .of_ranged MessageRequest.ranged,
      .of_ranged TxHeader.ranged, .of_ranged TxOutput.ranged, .of_ranged TxInput.ranged⟩
  case others =>
    exact ⟨AppVersion.ranged, AppName.ranged, AppInfo.ranged, DerivationPath.ranged,
      PublicKey.ranged, MessageSignature.ranged, TxSignature.ranged, Frame.ranged, Answer.ranged⟩
  case response => exact fun k b => .of_eq (Response.parse_eq k b)
  case transaction => exact fun b => .of_eq (Transaction.parse_eq b)
  case payloads => exact fun ps => .of_eq (Transaction.parsePayloads_eq ps)
  case message => exact fun b => .of_eq (PersonalMessage.parse_eq b)
  case device =>
    intro σ _ e apdu
    rw [update_eq]
    exact ⟨.of_eq rfl, rfl⟩

end HardwareSigner
