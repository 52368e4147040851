import HardwareSigner.Log
import HardwareSigner.Proofs.Device.Agreement
import HardwareSigner.Proofs.Device.Invariant
import HardwareSigner.Proofs.Device.Release
import HardwareSigner.Proofs.Device.Requests
import HardwareSigner.Proofs.Transaction.Digest

/-! What an approval gives is what was asked for by the last frame that was left to the operator,
whatever came between the two and whatever was pending before it. That frame is found in the log of
the run: nothing after it was left to the operator or decided. -/

namespace HardwareSigner

/-- A frame that asks for what a device is in the middle of, and waits for the operator's word. -/
def Frame.AsksFor (f : Frame) : Activity → Prop
  | .publicKeyPending path =>
    f.cla = appClass ∧ f.ins = Instruction.getPublicKey.code ∧ f.p2 = 0 ∧
      Device.checkPath path = .ok () ∧ ∃ rest, DerivationPath.read f.data = .ok (path, rest)
  | .messagePending path hash =>
    f.cla = appClass ∧ f.ins = Instruction.signMessage.code ∧
      ∃ r : MessageRequest, MessageRequest.read.decodeAll f.data = .ok r ∧
        path.elements = [purpose, coinType, r.account, r.addressType.toUInt32, r.addressIndex] ∧
        Device.messageHash r.message = .ok hash
  | .txPending _ => f.cla = appClass ∧ f.ins = Instruction.signTx.code
  | .idle | .staging _ | .signing .. => False

/-- What happened to a device, and the answer to it. -/
abbrev Incident := Event × Except StatusWord Output

namespace Incident

def Defers (x : Incident) : Prop := x.2 = .ok .pending

/-- The operator decided what was pending. -/
def Decides (x : Incident) : Prop := (x.1 = .approval ∨ x.1 = .denial) ∧ ∃ o, x.2 = .ok o

def Passes (x : Incident) : Prop := ¬x.Defers ∧ ¬x.Decides

/-- The last frame of the log that was left to the operator. -/
def LastDeferred (log : List Incident) (f : Frame) : Prop :=
  Log.Since (fun x => x = (.frame f.layout, .ok .pending)) (fun x : Incident => ¬x.Defers) log

/-- Each decision is on something that was left to the operator and was not decided since. -/
def Resolving (log : List Incident) : Prop :=
  Log.Each (fun before (x : Incident) => x.Decides → Log.Since Defers Passes before) log

end Incident

namespace Activity

variable {a : Activity}

theorem of_mode (h : a.mode = .publicKeyPending ∨ a.mode = .messagePending) :
    (∃ path, a = .publicKeyPending path) ∨ ∃ path hash, a = .messagePending path hash := by
  cases a <;> simp [mode] at h ⊢

theorem isPending_of_mode (h : a.mode = .publicKeyPending ∨ a.mode = .messagePending) :
    a.isPending = true := by
  rcases of_mode h with ⟨path, rfl⟩ | ⟨path, hash, rfl⟩ <;> rfl

end Activity

namespace Engine

variable {σ : Type} [KeySource σ] {e e' : Engine σ} {f : Frame} {apdu : Bytes}

theorem getPublicKey_pending (h : e.getPublicKey f = (.ok .pending, e')) :
    f.p2 = 0 ∧ ∃ path rest, DerivationPath.read f.data = .ok (path, rest) ∧
      Device.checkPath path = .ok () ∧ e'.activity = .publicKeyPending path := by
  unfold getPublicKey at h
  split at h
  · cases h
  rename_i hparameters
  split at h
  · cases h
  split at h
  · cases h
  rename_i path n hdecode
  split at h
  · cases h
  rename_i hpath
  split at h
  · split at h <;> cases h
  cases h
  unfold Reader.decode at hdecode
  split at hdecode
  · rename_i rest hread
    cases hdecode
    simp only [Bool.or_eq_true, decide_eq_true_eq, not_or, not_not] at hparameters
    exact ⟨hparameters.2, path, rest, hread, hpath, rfl⟩
  · cases hdecode

omit [KeySource σ] in
theorem signMessage_pending (h : e.signMessage f = (.ok .pending, e')) :
    ∃ m hash, Device.parseMessage f.data e.config.messageLimit = .ok m ∧
      Device.messageHash m.message = .ok hash ∧ e'.activity = .messagePending m.path hash := by
  unfold signMessage at h
  split at h
  · cases h
  split at h
  · cases h
  split at h
  · cases h
  rename_i m hparse
  split at h
  · cases h
  rename_i hash hhash
  cases h
  exact ⟨m, hash, hparse, hhash, rfl⟩

omit [KeySource σ] in
theorem query_ne_pending {r : Except StatusWord Bytes} : e.query r ≠ (.ok .pending, e') := by
  cases r <;> exact nofun

theorem review_pending {tx : StagedTx} (h : e.review tx = (.ok .pending, e')) :
    e'.activity = .txPending tx := by
  unfold review at h
  split at h
  · cases h
  split at h
  · cases h
    rfl
  split at h
  · cases h
  split at h
  · cases h
  · cases h
    rfl

theorem stageInput_pending {data : Bytes} {last : Bool}
    (h : e.stageInput data last = (.ok .pending, e')) : ∃ tx, e'.activity = .txPending tx := by
  unfold stageInput at h
  split at h
  · cases h
  rename_i tx _
  split at h
  · exact ⟨tx, review_pending h⟩
  · cases h

omit [KeySource σ] in
theorem dropOnError_ok {α : Type} {r : Except StatusWord α × Engine σ} {a : α}
    (h : dropOnError r = (.ok a, e')) : r = (.ok a, e') := by
  obtain ⟨_ | b, e⟩ := r
  · cases h
  · exact h

theorem signTx_pending (h : e.signTx f = (.ok .pending, e')) :
    ∃ tx, e'.activity = .txPending tx := by
  unfold signTx at h
  split at h
  case h_2 => cases h
  rename_i phase cont _ _
  split at h
  · cases h
  cases phase with
  | nextSignature =>
    simp only at h
    split at h <;> cases h
  | start =>
    simp only at h
    split at h
    · cases h
    · have hstage := dropOnError_ok h
      unfold stageStart at hstage
      split at hstage <;> cases hstage
  | outputs =>
    simp only at h
    split at h
    · cases h
    · have hstage := dropOnError_ok h
      unfold stageOutput at hstage
      split at hstage <;> cases hstage
  | inputs =>
    simp only at h
    split at h
    · cases h
    · exact stageInput_pending (dropOnError_ok h)

theorem command_pending {ins : Instruction} (hcla : f.cla = appClass) (hins : f.ins = ins.code)
    (h : e.command f ins = (.ok .pending, e')) : f.AsksFor e'.activity := by
  cases ins with
  | getVersion =>
    simp only [command] at h
    split at h
    · cases h
    · exact absurd h query_ne_pending
  | getAppName =>
    simp only [command] at h
    split at h
    · cases h
    · exact absurd h query_ne_pending
  | getPublicKey =>
    obtain ⟨hp2, path, rest, hpath, hcheck, hact⟩ := getPublicKey_pending h
    rw [hact]
    exact ⟨hcla, hins, hp2, hcheck, rest, hpath⟩
  | signTx =>
    obtain ⟨tx, hact⟩ := signTx_pending h
    rw [hact]
    exact ⟨hcla, hins⟩
  | signMessage =>
    obtain ⟨m, hash, hparse, hhash, hact⟩ := signMessage_pending h
    obtain ⟨r, hr, hpath, hmessage⟩ := Device.parseMessage_reads hparse
    rw [hact]
    rw [hmessage] at hhash
    exact ⟨hcla, hins, r, hr, hpath, hhash⟩

/-- A frame that is left to the operator asks for what is pending after it. -/
theorem update_pending (h : e.update apdu = (.ok .pending, e')) :
    ∃ f : Frame, apdu = f.layout ∧ f.AsksFor e'.activity := by
  unfold update at h
  split at h
  · cases h
  rename_i f hread
  obtain ⟨rfl, -⟩ := Frame.read_eq_ok.1 (Reader.decodeAll_eq_ok.1 hread)
  refine ⟨f, rfl, ?_⟩
  split at h
  · rename_i hcla
    split at h
    · rename_i ins hins
      exact command_pending hcla (Instruction.ofCode?_eq_some.1 hins) h
    · cases h
  split at h
  · split at h
    · exact absurd h query_ne_pending
    · cases h
  · cases h

theorem Change.passes {ev : Event} {r : Except StatusWord Output} (h : e.Change ev r e')
    (hpending : e'.isPending = true) (hr : r ≠ .ok .pending) :
    e'.activity = e.activity ∧ Incident.Passes (ev, r) := by
  have hnone : ∀ {tx : StagedTx} {queue : List TxSignature},
      ¬(Activity.remaining tx queue).isPending = true := by
    intro tx queue
    unfold Activity.remaining
    split <;> nofun
  cases h with
  | told _ hask => exact ⟨hask.activity, nofun, by rintro ⟨h | h, -⟩ <;> cases h⟩
  | refused hask => exact ⟨hask.activity, nofun, by rintro ⟨-, o, ⟨⟩⟩⟩
  | dropped _ => cases hpending
  | denied _ => cases hpending
  | confirmed _ _ => cases hpending
  | keyShown _ _ => exact absurd rfl hr
  | messageShown _ _ _ => exact absurd rfl hr
  | started _ _ => cases hpending
  | outputTaken _ _ _ => cases hpending
  | inputTaken _ _ _ => cases hpending
  | completed _ _ _ _ _ _ => exact absurd rfl hr
  | fetched _ _ _ => exact absurd hpending hnone
  | released _ _ _ => exact absurd hpending hnone
  | stalled _ _ => cases hpending

theorem isPending_of_decides {ev : Event} (h : Incident.Decides (ev, (e.step ev).1)) :
    e.isPending = true := by
  obtain ⟨rfl | rfl, o, ho⟩ := h
  · change e.approve.1.map Output.data = .ok o at ho
    unfold approve at ho
    split at ho
    · rename_i hact
      exact congrArg Activity.isPending hact
    · rename_i hact
      exact congrArg Activity.isPending hact
    · rename_i hact
      exact congrArg Activity.isPending hact
    · cases ho
  · change e.deny.1.map _ = .ok o at ho
    unfold deny at ho
    split at ho
    · assumption
    · cases ho

theorem step_pending {ev : Event} (h : e.step ev = (.ok .pending, e')) :
    ∃ f : Frame, ev = .frame f.layout ∧ f.AsksFor e'.activity := by
  cases ev with
  | frame apdu =>
    obtain ⟨f, rfl, hf⟩ := update_pending h
    exact ⟨f, rfl, hf⟩
  | approval =>
    obtain ⟨h, -⟩ := Prod.mk.inj h
    cases hr : e.approve.1 <;> rw [hr] at h <;> cases h
  | denial =>
    obtain ⟨h, -⟩ := Prod.mk.inj h
    cases hr : e.deny.1 <;> rw [hr] at h <;> cases h

/-- What ties a device to the log of its run: whatever is pending was asked for by a frame that was
left to the operator, and no other was since, nor was any decided. -/
structure Bound (e : Engine σ) (log : List Incident) : Prop where
  asked : e.isPending = true → Log.Since
    (fun x => ∃ f : Frame, x = (.frame f.layout, .ok .pending) ∧ f.AsksFor e.activity)
    Incident.Passes log
  resolving : Incident.Resolving log

omit [KeySource σ] in
theorem bound_new (system : SignatureSystem) (config : DeviceConfig) (keys : σ) :
    (new system config keys).Bound [] :=
  ⟨nofun, Log.each_nil⟩

variable {log : List Incident}

theorem Bound.step (h : e.Bound log) (ev : Event) :
    (e.step ev).2.Bound (log ++ [(ev, (e.step ev).1)]) where
  asked hpending := by
    rw [Log.since_concat]
    by_cases hr : (e.step ev).1 = .ok .pending
    · obtain ⟨f, rfl, hf⟩ := step_pending (Prod.ext hr rfl)
      exact .inl ⟨f, by rw [hr], hf⟩
    · obtain ⟨hact, hpasses⟩ := (e.step_change ev).passes hpending hr
      rw [hact]
      refine .inr ⟨hpasses, h.asked ?_⟩
      exact (congrArg Activity.isPending hact).symm.trans hpending
  resolving := by
    refine Log.each_concat.2 ⟨h.resolving, fun hdecides => ?_⟩
    refine (h.asked (isPending_of_decides hdecides)).mono ?_ fun _ hx => hx
    rintro x ⟨f, rfl, -⟩
    exact rfl

theorem Bound.after (h : e.Bound log) (evs : List Event) :
    (e.after evs).Bound (log ++ e.trace evs) := by
  induction evs generalizing e log with
  | nil => simpa [trace] using h
  | cons ev evs ih => simpa [trace] using ih (h.step ev)

/-- The data that an approval gives for a frame. For a key it is what the same frame gives where the
key need not be confirmed, whatever the device is in the middle of. For a message it is the hash of
the message in the frame, signed with the key of the path in the frame. -/
inductive ApprovesFrame (e : Engine σ) (f : Frame) (d : Bytes) : Prop
  | key (hins : f.ins = Instruction.getPublicKey.code)
      (htold : ∀ a : Activity, (update { e with activity := a }
        (Frame.layout { f with p1 := 0 })).1 = .ok (.data d))
  | message {r : MessageRequest} {k : DerivedKey} {hash : Block 32}
      (hins : f.ins = Instruction.signMessage.code)
      (hread : MessageRequest.read.decodeAll f.data = .ok r)
      (hhash : Device.messageHash r.message = .ok hash)
      (hkey : (KeySource.derive e.keys
        [purpose, coinType, r.account, r.addressType.toUInt32, r.addressIndex]).1 = some k)
      (hdata : d = (MessageSignature.mk (e.system.sign k.secret hash).bytes
        (length_signature_le _) hash).layout)

theorem approvesFrame_key {path : DerivationPath} {d : Bytes} (hf : f.AsksFor e.activity)
    (hact : e.activity = .publicKeyPending path) (hd : e.approve.1 = .ok d) :
    e.ApprovesFrame f d := by
  rw [hact] at hf
  obtain ⟨hcla, hins, hp2, hpath, rest, hread⟩ := hf
  have hkey : (e.publicKey path).1 = .ok d := by
    unfold approve at hd
    rw [hact] at hd
    exact hd
  refine .key hins fun a => ?_
  let g : Frame := { f with p1 := 0 }
  have hindifferent := publicKey_indifferent path e a
  simp only at hindifferent
  have htold := getPublicKey_of_path (e := { e with activity := a }) (f := g) (.inl rfl) hp2 hread
  rw [update_of_command (f := g) hcla hins]
  change (getPublicKey _ g).1 = _
  rw [htold, hpath]
  simp only [showKey, show g.p1 = 0 from rfl, if_true, hindifferent, hkey]
  rfl

theorem approvesFrame_message {path : DerivationPath} {hash : Block 32} {d : Bytes}
    (hf : f.AsksFor e.activity) (hact : e.activity = .messagePending path hash)
    (hd : e.approve.1 = .ok d) : e.ApprovesFrame f d := by
  rw [hact] at hf
  obtain ⟨-, hins, r, hread, hpath, hhash⟩ := hf
  have hsign : (e.signHash path hash).1 = .ok d := by
    unfold approve at hd
    rw [hact] at hd
    exact hd
  have hask := e.derive_asks path.elements
  unfold signHash at hsign
  split at hsign
  · cases hsign
  rename_i k e₁ hderive
  rw [hderive] at hask
  have hk := derive_ok (congrArg Prod.fst hderive)
  rw [hpath] at hk
  refine .message hins hread hhash hk ?_
  rw [← hask.system]
  exact (Except.ok.inj hsign).symm

theorem approve_eq_new
    (h : e.activity.mode = .publicKeyPending ∨ e.activity.mode = .messagePending) :
    e.approve.2 = new e.system e.config e.approve.2.keys := by
  rcases Activity.of_mode h with ⟨path, hact⟩ | ⟨path, hash, hact⟩
  · have hask := e.publicKey_asks path
    unfold approve
    rw [hact]
    change (e.publicKey path).2.reset = new _ _ (e.publicKey path).2.keys
    rw [hask.eq_with_keys]
    rfl
  · have hask := e.signHash_asks path hash
    unfold approve
    rw [hact]
    change (e.signHash path hash).2.reset = new _ _ (e.signHash path hash).2.keys
    rw [hask.eq_with_keys]
    rfl

/-- A key or a message that is approved is the one that the last frame asked for that was left to
the operator; then the device is as new. Along the run each decision is on what was left to the
operator last, and nothing is decided twice. -/
theorem approval_bound (system : SignatureSystem) (config : DeviceConfig) (keys : σ)
    (evs : List Event) :
    Incident.Resolving ((new system config keys).trace evs) ∧
    ∀ (e : Engine σ) (d : Bytes), e = (new system config keys).after evs →
      e.activity.mode = .publicKeyPending ∨ e.activity.mode = .messagePending →
      e.approve.1 = .ok d →
      (∃ f, Incident.LastDeferred ((new system config keys).trace evs) f) ∧
      (∀ f, Incident.LastDeferred ((new system config keys).trace evs) f → e.ApprovesFrame f d) ∧
      e.approve.2 = new system config e.approve.2.keys := by
  have hbound := (bound_new system config keys).after evs
  rw [List.nil_append] at hbound
  refine ⟨hbound.resolving, ?_⟩
  rintro e d he hmode hd
  rw [← he] at hbound
  have hsound := sound_after system config keys evs
  rw [← he] at hsound
  obtain ⟨before, _, since, hlog, ⟨f, rfl, hf⟩, hsince⟩ :=
    hbound.asked (Activity.isPending_of_mode hmode)
  have hlast : Incident.LastDeferred ((new system config keys).trace evs) f :=
    ⟨before, _, since, hlog, rfl, fun y hy => (hsince y hy).1⟩
  refine ⟨⟨f, hlast⟩, fun g hg => ?_, ?_⟩
  · obtain ⟨x, hx, hx'⟩ := hlast.meet hg (by rintro _ rfl hnot; exact hnot rfl)
      (by rintro _ rfl hnot; exact hnot rfl)
    have hframe : Event.frame f.layout = .frame g.layout := congrArg Prod.fst (hx.symm.trans hx')
    obtain rfl : f = g := Frame.layout_injective (Event.frame.inj hframe)
    rcases Activity.of_mode hmode with ⟨path, hact⟩ | ⟨path, hash, hact⟩
    · exact approvesFrame_key hf hact hd
    · exact approvesFrame_message hf hact hd
  · rw [approve_eq_new hmode, hsound.system_eq, hsound.config_eq]
    rfl

end Engine

namespace BindingExample

def keyFrame : Frame :=
  ⟨appClass, Instruction.getPublicKey.code, 1, 0, [2, 0x80, 0, 0, 44, 0x80, 1, 0xb2, 7],
    by decide⟩

def messageFrame : Frame :=
  ⟨appClass, Instruction.signMessage.code, 0, 0,
    [0, 0, 0, 0, 0, 0x80, 0, 0, 0, 4, 0x74, 0x65, 0x73, 0x74], by decide⟩

/-- The message takes the place of the key; a query and a frame cut short come after it. -/
def displacing : List Event :=
  [.frame keyFrame.layout, .frame messageFrame.layout, .frame [0xe0, 3, 0, 0, 0],
    .frame [0xe0, 5, 1, 0]]

end BindingExample

open BindingExample ReleaseExample in
theorem approval_bound_message :
    ∃ d, ((Engine.new system config keys).after displacing).approve.1 = .ok d ∧
      ((Engine.new system config keys).after displacing).ApprovesFrame
        messageFrame d := by
  have hlast : Incident.LastDeferred
      ((Engine.new system config keys).trace displacing) messageFrame :=
    ⟨[(.frame keyFrame.layout, .ok .pending)], _,
      [(.frame [0xe0, 3, 0, 0, 0], .ok (.data [1, 1, 0])),
        (.frame [0xe0, 5, 1, 0], .error .wrongDataLength)], rfl, rfl,
      by simp [Incident.Defers]⟩
  obtain ⟨-, happrove⟩ := Engine.approval_bound system config keys displacing
  obtain ⟨-, hframe, -⟩ := happrove _ _ rfl (.inr rfl) rfl
  exact ⟨_, rfl, hframe messageFrame hlast⟩

end HardwareSigner
