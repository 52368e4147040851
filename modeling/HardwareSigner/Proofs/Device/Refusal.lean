import HardwareSigner.Proofs.Device.Agreement
import HardwareSigner.Proofs.Device.Release
import HardwareSigner.Proofs.Transaction.Digest

/-! What a refusal leaves of the exchange under way: all of it, or nothing. A frame that is refused
before it is staged or parsed leaves every register as it was. A fault of what is staged or parsed
clears them all, also where some were set before it was found. -/

namespace HardwareSigner

/-- The bytes are a frame with this command of the application. -/
structure Commands (apdu : Bytes) (f : Frame) (ins : Instruction) : Prop where
  read : Frame.read.decodeAll apdu = .ok f
  cla : f.cla = appClass
  ins_eq : Instruction.ofCode? f.ins = some ins

def Frame.NeedsPayload (f : Frame) : Instruction → Prop
  | .getPublicKey | .signMessage => True
  | .signTx => f.phase? ≠ some .nextSignature
  | .getVersion | .getAppName => False

/-- Refusals that leave the exchange under way as it is. -/
inductive Spares : Bytes → StatusWord → Prop
  | unreadable {apdu : Bytes} {s : StatusWord} {err : WireError}
      (hread : Frame.read.decodeAll apdu = .error err) : Spares apdu s
  | unknownClass {apdu : Bytes} {s : StatusWord} {f : Frame}
      (hread : Frame.read.decodeAll apdu = .ok f) (hcla : f.cla ≠ appClass)
      (hdashboard : f.cla ≠ dashboardClass) : Spares apdu s
  | unknownInstruction {apdu : Bytes} {s : StatusWord} {f : Frame}
      (hread : Frame.read.decodeAll apdu = .ok f) (hcla : f.cla = appClass)
      (hins : Instruction.ofCode? f.ins = none) : Spares apdu s
  | dashboard {apdu : Bytes} {s : StatusWord} {f : Frame}
      (hread : Frame.read.decodeAll apdu = .ok f) (hcla : f.cla = dashboardClass) : Spares apdu s
  | parameters {apdu : Bytes} : Spares apdu .wrongP1P2
  | empty {apdu : Bytes} {s : StatusWord} {f : Frame} {ins : Instruction}
      (hc : Commands apdu f ins) (hneeds : f.NeedsPayload ins) (hdata : f.data = []) :
      Spares apdu s
  | query {apdu : Bytes} {s : StatusWord} {f : Frame} {ins : Instruction}
      (hc : Commands apdu f ins) (hins : ins = .getVersion ∨ ins = .getAppName) : Spares apdu s
  | publicKey {apdu : Bytes} {s : StatusWord} {f : Frame}
      (hc : Commands apdu f .getPublicKey) : Spares apdu s
  | nextSignature {apdu : Bytes} {s : StatusWord} {f : Frame}
      (hc : Commands apdu f .signTx) (hphase : f.phase? = some .nextSignature) : Spares apdu s

/-- Refusals that end the exchange under way: any other one of a header, an output or an input, and
faults of a message. -/
inductive Drops (limit : Nat) : Bytes → StatusWord → Prop
  | staging {apdu : Bytes} {s : StatusWord} {f : Frame} {phase : Phase}
      (hc : Commands apdu f .signTx) (hphase : f.phase? = some phase)
      (hne : phase ≠ .nextSignature) (hdata : f.data ≠ []) (hs : s ≠ .wrongP1P2) :
      Drops limit apdu s
  | message {apdu : Bytes} {s : StatusWord} {f : Frame}
      (hc : Commands apdu f .signMessage) (hdata : f.data ≠ [])
      (hparse : Device.parseMessage f.data limit = .error s) : Drops limit apdu s

section

variable {apdu : Bytes} {s : StatusWord} {f g : Frame} {ins ins' : Instruction} {limit : Nat}

theorem Commands.unique (h : Commands apdu f ins) (h' : Commands apdu g ins') :
    f = g ∧ ins = ins' := by
  obtain rfl : f = g := Except.ok.inj (h.read.symm.trans h'.read)
  exact ⟨rfl, Option.some.inj (h.ins_eq.symm.trans h'.ins_eq)⟩

end

def stagingFaults : List StatusWord := [.badState, .txParsingFail, .signatureFail]

namespace Device

/-- Faults of a message have status words of their own. -/
theorem parseMessage_error {data : Bytes} {limit : Nat} {s : StatusWord}
    (h : parseMessage data limit = .error s) : s.isMessageError = true := by
  simp only [parseMessage, bind, Except.bind, pure, Except.pure, throw, throwThe,
    MonadExceptOf.throw] at h
  repeat' split at h
  all_goals cases h
  all_goals rfl

end Device

section

variable {apdu : Bytes} {s : StatusWord} {limit : Nat}

/-- A frame that drops the exchange is a command with a payload, one that stages or parses it. -/
theorem Drops.commands (h : Drops limit apdu s) : ∃ f ins, Commands apdu f ins ∧ f.data ≠ [] ∧
    s ≠ .wrongP1P2 ∧ (ins = .signMessage ∨ ins = .signTx ∧ f.phase? ≠ some .nextSignature) := by
  cases h with
  | staging hc hphase hne hdata hs =>
    exact ⟨_, _, hc, hdata, hs, .inr ⟨rfl, by simp [hphase, hne]⟩⟩
  | message hc hdata hparse =>
    refine ⟨_, _, hc, hdata, ?_, .inl rfl⟩
    rintro rfl
    exact absurd (Device.parseMessage_error hparse) (by decide)

theorem Spares.not_drops (h : Spares apdu s) : ¬Drops limit apdu s := by
  intro hd
  obtain ⟨f, ins, hc, hdata, hs, hins⟩ := hd.commands
  -- the bytes are read in one way, so both kinds speak of one frame
  cases h with
  | unreadable hread => cases hread.symm.trans hc.read
  | unknownClass hread hcla hdashboard =>
    obtain rfl := Except.ok.inj (hread.symm.trans hc.read)
    exact hcla hc.cla
  | unknownInstruction hread hcla hnone =>
    obtain rfl := Except.ok.inj (hread.symm.trans hc.read)
    cases hnone.symm.trans hc.ins_eq
  | dashboard hread hcla =>
    obtain rfl := Except.ok.inj (hread.symm.trans hc.read)
    exact absurd (hcla.symm.trans hc.cla) (by decide)
  | parameters => exact hs rfl
  | empty hc' hneeds hnil =>
    obtain ⟨rfl, rfl⟩ := hc'.unique hc
    exact hdata hnil
  | query hc' hquery =>
    obtain ⟨rfl, rfl⟩ := hc'.unique hc
    rcases hquery with rfl | rfl <;> simp at hins
  | publicKey hc' =>
    obtain ⟨rfl, rfl⟩ := hc'.unique hc
    simp at hins
  | nextSignature hc' hphase =>
    obtain ⟨rfl, rfl⟩ := hc'.unique hc
    simp [hphase] at hins

end

namespace StagedTx

variable {tx : StagedTx} {data : Bytes} {s : StatusWord}

theorem start_error (h : start data = .error s) : s ∈ stagingFaults := by
  unfold start at h
  split at h
  · cases h
    decide
  · split at h <;> cases h
    decide

theorem pushOutput_error (h : tx.pushOutput data = .error s) : s ∈ stagingFaults := by
  unfold pushOutput at h
  repeat' split at h
  all_goals cases h
  all_goals decide

theorem takeInput_error {last : Bool} (h : (tx.takeInput data last).1 = .error s) :
    s ∈ stagingFaults := by
  simp only [takeInput] at h
  repeat' split at h
  all_goals cases h
  all_goals decide

theorem checkFee_error (h : tx.checkFee = .error s) : s ∈ stagingFaults := by
  unfold checkFee at h
  split at h <;> cases h
  decide

theorem checkChange_error {script : Bytes} (h : tx.checkChange script = .error s) :
    s ∈ stagingFaults := by
  unfold checkChange at h
  repeat' split at h
  all_goals cases h
  all_goals decide

end StagedTx

namespace Engine

variable {σ : Type} [KeySource σ] {e : Engine σ} {s : StatusWord}

theorem derive_error {path : List UInt32} (h : (e.derive path).1 = .error s) :
    s = .signatureFail := by
  unfold derive at h
  split at h <;> cases h
  rfl

theorem changeScript_error {c : ChangeAddress} (h : (e.changeScript c).1 = .error s) :
    s ∈ stagingFaults := by
  unfold changeScript at h
  split at h
  · cases h
  · rename_i hd
    cases h
    rw [derive_error (congrArg Prod.fst hd)]
    decide

end Engine

namespace Board

variable {σ : Type} {b b' : Board σ} {s : StatusWord} {apdu data : Bytes} {f : Frame}

/-- Every register is as it was; keys may have been asked for. -/
def Kept (b b' : Board σ) : Prop := b' = { b with keys := b'.keys }

/-- The device is as it was set up; keys may have been asked for. -/
def Fresh (b b' : Board σ) : Prop := b' = new b.system b.config b'.keys

/-- What a refusal does, by its kind. -/
inductive Refused (b : Board σ) (apdu : Bytes) (s : StatusWord) (b' : Board σ) : Prop
  | spared (hs : Spares apdu s) (hb : b.Kept b')
  | dropped (hd : Drops b.config.messageLimit apdu s) (hb : b.Fresh b')

theorem Refused.kept (h : b.Refused apdu s b') (hs : Spares apdu s) : b.Kept b' := by
  cases h with
  | spared _ hb => exact hb
  | dropped hd hb => exact absurd hd hs.not_drops

theorem Refused.fresh (h : b.Refused apdu s b') (hd : Drops b.config.messageLimit apdu s) :
    b.Fresh b' := by
  cases h with
  | spared hs hb => exact absurd hd hs.not_drops
  | dropped _ hb => exact hb

theorem Refused.kept_or_fresh (h : b.Refused apdu s b') : b.Kept b' ∨ b.Fresh b' := by
  cases h with
  | spared hs hb => exact .inl hb
  | dropped hd hb => exact .inr hb

theorem kept_refl (b : Board σ) : b.Kept b := rfl

theorem staged_error (h : b.staged = .error s) : s ∈ stagingFaults := by
  unfold staged at h
  split at h <;> cases h
  decide

theorem txStart_error (h : resetOnError (b.txStart data) = (.error s, b')) :
    s ∈ stagingFaults ∧ b.Fresh b' := by
  unfold txStart at h
  cases hstart : StagedTx.start data with
  | error fault =>
    rw [hstart] at h
    cases h
    exact ⟨StagedTx.start_error hstart, rfl⟩
  | ok tx =>
    rw [hstart] at h
    cases h

theorem txOutput_error (h : resetOnError (b.txOutput data) = (.error s, b')) :
    s ∈ stagingFaults ∧ b.Fresh b' := by
  unfold txOutput at h
  cases hstaged : b.staged with
  | error fault =>
    rw [hstaged] at h
    cases h
    exact ⟨staged_error hstaged, rfl⟩
  | ok tx =>
    simp only [hstaged] at h
    cases hpush : tx.pushOutput data with
    | error fault =>
      rw [hpush] at h
      cases h
      exact ⟨StagedTx.pushOutput_error hpush, rfl⟩
    | ok tx' =>
      rw [hpush] at h
      cases h

theorem query_error {r : Except StatusWord Bytes} (h : b.query r = (.error s, b')) :
    b.Kept b' := by
  obtain ⟨-, rfl⟩ := Prod.mk.inj h
  exact b.kept_refl

theorem signMessage_error (hc : Commands apdu f .signMessage)
    (h : b.signMessage f = (.error s, b')) : b.Refused apdu s b' := by
  unfold signMessage at h
  split at h
  · cases h
    exact .spared .parameters b.kept_refl
  split at h
  · rename_i hdata
    cases h
    exact .spared (.empty hc trivial (List.isEmpty_iff.1 hdata)) b.kept_refl
  rename_i hdata
  have hne : f.data ≠ [] := fun hnil => hdata (List.isEmpty_iff.2 hnil)
  simp only at h
  cases hparse : Device.parseMessage f.data b.config.messageLimit with
  | error fault =>
    rw [show b.reset.config = b.config from rfl, hparse] at h
    cases h
    exact .dropped (.message hc hne hparse) rfl
  | ok m =>
    simp only [show b.reset.config = b.config from rfl, hparse, Device.messageHash_eq] at h
    cases h

/-- A queue that is empty or not there stays so; a signature always has its bytes. -/
theorem nextSignature_error {r : Except StatusWord Bytes} (h : b.nextSignature = (r, b'))
    (hr : r.map Output.data = .error s) : b' = b := by
  unfold nextSignature at h
  repeat' split at h
  all_goals cases h
  all_goals first | rfl | cases hr

variable [KeySource σ]

/-- The review starts when the last input is kept already. -/
theorem txReview_error {tx tx' : StagedTx}
    (h : resetOnError (txReview { b with tx := some tx } tx') = (.error s, b')) :
    s ∈ stagingFaults ∧ b.Fresh b' := by
  unfold txReview at h
  cases hfee : tx'.checkFee with
  | error fault =>
    rw [hfee] at h
    cases h
    exact ⟨StagedTx.checkFee_error hfee, rfl⟩
  | ok u =>
    simp only [hfee] at h
    cases hchange : tx'.header.change with
    | none =>
      rw [hchange] at h
      cases h
    | some c =>
      simp only [hchange, asking] at h
      rcases hscript : (Engine.new b.system b.config b.keys).changeScript c with ⟨fault | script, e⟩
      · rw [hscript] at h
        cases h
        exact ⟨Engine.changeScript_error (congrArg Prod.fst hscript), rfl⟩
      · simp only [hscript] at h
        cases hpaid : tx'.checkChange script with
        | error fault =>
          rw [hpaid] at h
          cases h
          exact ⟨StagedTx.checkChange_error hpaid, rfl⟩
        | ok u =>
          rw [hpaid] at h
          cases h

theorem txInput_error {last : Bool}
    (h : resetOnError (b.txInput data last) = (.error s, b')) :
    s ∈ stagingFaults ∧ b.Fresh b' := by
  unfold txInput at h
  cases hstaged : b.staged with
  | error fault =>
    rw [hstaged] at h
    cases h
    exact ⟨staged_error hstaged, rfl⟩
  | ok tx =>
    simp only [hstaged] at h
    rcases htake : tx.takeInput data last with ⟨fault | u, tx'⟩
    · rw [htake] at h
      cases h
      exact ⟨StagedTx.takeInput_error (congrArg Prod.fst htake), rfl⟩
    · simp only [htake] at h
      cases last with
      | false => cases h
      | true => exact txReview_error h

theorem getPublicKey_error (h : b.getPublicKey f = (.error s, b')) : b.Kept b' := by
  unfold getPublicKey at h
  split at h
  · cases h
    exact b.kept_refl
  split at h
  · cases h
    exact b.kept_refl
  split at h
  · cases h
    exact b.kept_refl
  split at h
  · cases h
    exact b.kept_refl
  split at h
  · obtain ⟨-, rfl⟩ := Prod.mk.inj h
    rfl
  · cases h

theorem signTx_error (hc : Commands apdu f .signTx) (h : b.signTx f = (.error s, b')) :
    b.Refused apdu s b' := by
  unfold signTx at h
  split at h
  case h_2 =>
    cases h
    exact .spared .parameters b.kept_refl
  rename_i phase cont hphase hcont
  split at h
  · cases h
    exact .spared .parameters b.kept_refl
  by_cases hnext : phase = .nextSignature
  · subst hnext
    have hb : b' = b := by
      rcases hr : b.nextSignature with ⟨r, b₁⟩
      simp only [hr] at h
      obtain ⟨hs, rfl⟩ := Prod.mk.inj h
      exact nextSignature_error hr hs
    rw [hb]
    exact .spared (.nextSignature hc hphase) b.kept_refl
  split at h
  · rename_i hdata
    simp only [Bool.and_eq_true, List.isEmpty_iff] at hdata
    cases h
    refine .spared (.empty hc ?_ hdata.2) b.kept_refl
    rw [Frame.NeedsPayload, hphase]
    exact fun heq => hnext (Option.some.inj heq)
  rename_i hdata
  have hne : f.data ≠ [] := fun hnil => hdata (by simp [hnext, hnil])
  -- whatever was set before the fault was found is cleared again
  have hstaged : s ∈ stagingFaults ∧ b.Fresh b' := by
    cases phase with
    | start => exact txStart_error h
    | outputs => exact txOutput_error h
    | inputs => exact txInput_error h
    | nextSignature => exact absurd rfl hnext
  refine .dropped (.staging hc hphase hnext hne ?_) hstaged.2
  rintro rfl
  exact absurd hstaged.1 (by decide)

theorem command_error {ins : Instruction} (hc : Commands apdu f ins)
    (h : b.command f ins = (.error s, b')) : b.Refused apdu s b' := by
  cases ins with
  | getVersion =>
    simp only [command] at h
    split at h
    · cases h
      exact .spared .parameters b.kept_refl
    · exact .spared (.query hc (.inl rfl)) (query_error h)
  | getAppName =>
    simp only [command] at h
    split at h
    · cases h
      exact .spared .parameters b.kept_refl
    · exact .spared (.query hc (.inr rfl)) (query_error h)
  | getPublicKey => exact .spared (.publicKey hc) (getPublicKey_error h)
  | signTx => exact signTx_error hc h
  | signMessage => exact signMessage_error hc h

theorem update_error (h : b.update apdu = (.error s, b')) : b.Refused apdu s b' := by
  unfold update at h
  split at h
  · rename_i hread
    cases h
    exact .spared (.unreadable hread) b.kept_refl
  rename_i f hread
  split at h
  · rename_i hcla
    split at h
    · rename_i ins hins
      exact command_error ⟨hread, hcla, hins⟩ h
    · rename_i hins
      cases h
      exact .spared (.unknownInstruction hread hcla hins) b.kept_refl
  rename_i hcla
  split at h
  · rename_i hdashboard
    split at h
    · exact .spared (.dashboard hread hdashboard) (query_error h)
    · cases h
      exact .spared (.dashboard hread hdashboard) b.kept_refl
  · rename_i hdashboard
    cases h
    exact .spared (.unknownClass hread hcla hdashboard) b.kept_refl

/-- Only a key that is missing makes the signing fail, and then nothing is set yet. -/
theorem approveTx_error {tx : StagedTx} (htx : b.tx = some tx) (hin : tx.inputs ≠ [])
    (h : b.approveTx = (.error s, b')) : b.Fresh b' := by
  unfold approveTx at h
  simp only [htx, asking] at h
  rcases hsign : (Engine.new b.system b.config b.keys).signInputs tx 0 tx.inputs with
    ⟨fault | signatures, e⟩
  · rw [hsign] at h
    cases h
    rfl
  · obtain ⟨first, rest, hqueue⟩ := Engine.arrange_signInputs b.config.order hsign hin
    simp only [hsign, hqueue] at h
    cases h

theorem approve_error {system : SignatureSystem} {config : DeviceConfig} {keys : σ}
    (hb : b.Invariant system config keys) (hpending : b.isPending = true)
    (h : b.approve = (.error s, b')) : b.Fresh b' := by
  unfold approve at h
  cases hmode : b.mode with
  | publicKeyPending =>
    obtain ⟨⟨path, hpath, -⟩, -⟩ := hb.publicKeyPending hmode
    simp only [hmode, hpath] at h
    obtain ⟨-, rfl⟩ := Prod.mk.inj h
    rfl
  | messagePending =>
    obtain ⟨⟨m, -, hpath, -⟩, -⟩ := hb.messagePending hmode
    simp only [hmode, hpath] at h
    obtain ⟨-, rfl⟩ := Prod.mk.inj h
    rfl
  | txPending =>
    obtain ⟨⟨tx, htx, hreviewed⟩, -⟩ := hb.txPending hmode
    simp only [hmode] at h
    exact approveTx_error htx hreviewed.inputs_ne h
  | init => simp [isPending, hmode] at hpending
  | staging => simp [isPending, hmode] at hpending
  | signing => simp [isPending, hmode] at hpending

end Board

namespace Engine

variable {σ : Type} [KeySource σ] {e e' : Engine σ} {apdu : Bytes} {s : StatusWord}

/-- Every failure leaves each register as it is, or the device as it was set up. The kind of a
refused frame says which; a decision that nobody waits for is the former, an approval that fails
the latter. -/
structure Atomic (e : Engine σ) : Prop where
  either : ∀ apdu s e', e.update apdu = (.error s, e') →
    e.board.Kept e'.board ∨ e.board.Fresh e'.board
  spared : ∀ apdu s e', e.update apdu = (.error s, e') → Spares apdu s → e.board.Kept e'.board
  dropped : ∀ apdu s e', e.update apdu = (.error s, e') →
    Drops e.config.messageLimit apdu s → e.board.Fresh e'.board
  undecided : e.isPending = false →
    e.approve = (.error .badState, e) ∧ e.deny = (.error .badState, e)
  unapproved : e.isPending = true → ∀ s e', e.approve = (.error s, e') → e.board.Fresh e'.board

theorem update_refused (h : e.update apdu = (.error s, e')) :
    e.board.Refused apdu s e'.board := by
  have hupdate : e.board.update apdu = (.error s, e'.board) := by
    rw [update_board, h]
  exact Board.update_error hupdate

theorem approve_of_not_pending (h : e.isPending = false) : e.approve = (.error .badState, e) := by
  unfold approve
  cases hact : e.activity <;> simp_all [isPending, Activity.isPending]

variable {system : SignatureSystem} {config : DeviceConfig} {keys : σ}

theorem Sound.approve_error (hs : e.Sound system config keys) (hpending : e.isPending = true)
    (h : e.approve = (.error s, e')) : e.board.Fresh e'.board := by
  have happrove : e.board.approve = (.error s, e'.board) := by
    rw [approve_board, h]
  exact Board.approve_error hs.board (e.board_isPending.trans hpending) happrove

theorem Sound.atomic (hs : e.Sound system config keys) : e.Atomic where
  either _ _ _ h := (update_refused h).kept_or_fresh
  spared _ _ _ h := (update_refused h).kept
  dropped _ _ _ h hd := (update_refused h).fresh (e.board_config.symm ▸ hd)
  undecided h := ⟨approve_of_not_pending h, if_neg (by simp [h])⟩
  unapproved hpending _ _ h := hs.approve_error hpending h

/-- Whatever reached a device before, its failures are atomic; and registers that are cleared and
set in the order in which hardware does it come out as those that this is said of. -/
theorem failures_atomic (system : SignatureSystem) (config : DeviceConfig) (keys : σ)
    (evs : List Event) :
    ((new system config keys).after evs).Atomic ∧
      ∀ ev, ((Board.new system config keys).after evs).step ev =
        ((((new system config keys).after evs).step ev).1,
          (((new system config keys).after evs).step ev).2.board) := by
  refine ⟨(sound_after system config keys evs).atomic, ?_⟩
  have hboard : (Board.new system config keys).after evs =
      ((new system config keys).after evs).board := after_board (new system config keys) evs
  rw [hboard]
  exact step_board _

/-- An output without a script ends the exchange that its header started, unless it says of itself
that it is the last. -/
example (system : SignatureSystem) (config : DeviceConfig) (keys : σ) :
    let e := (new system config keys).after [.frame [0xe0, 6, 0, 0x80, 4, 0, 1, 1, 1]]
    e.activity = .staging ⟨⟨1, 1, 1, none⟩, [], []⟩ ∧
      e.update [0xe0, 6, 1, 0x80, 1, 0] = (.error .txParsingFail, new system config keys) ∧
      e.update [0xe0, 6, 1, 0x00, 1, 0] = (.error .wrongP1P2, e) := by
  exact ⟨rfl, rfl, rfl⟩

end Engine

end HardwareSigner
