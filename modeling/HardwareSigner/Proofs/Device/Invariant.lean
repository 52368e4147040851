import HardwareSigner.Proofs.Device.Change
import HardwareSigner.Proofs.Device.Signing
import HardwareSigner.Proofs.Device.Staged

/-! What holds of a device at any time, whatever reached it before. -/

namespace HardwareSigner

variable {σ : Type} [KeySource σ] {system : SignatureSystem} {config : DeviceConfig} {keys : σ}

/-- What holds of an activity of a device with this system, source and longest message. -/
def Activity.Sound (system : SignatureSystem) (keys : σ) (limit : Nat) : Activity → Prop
  | idle => True
  | staging tx => tx.Partial
  | publicKeyPending path => Device.checkPath path = .ok ()
  | txPending tx => tx.Reviewed system keys
  | messagePending path hash => ∃ m : Device.MessageToSign,
      m.Shown limit ∧ m.path = path ∧ Device.messageHash m.message = .ok hash
  | signing tx queue => tx.Reviewed system keys ∧ queue ≠ []

namespace Engine

/-- A device that was set up with this system, configuration and source. -/
structure Sound (system : SignatureSystem) (config : DeviceConfig) (keys : σ)
    (e : Engine σ) : Prop where
  system_eq : e.system = system
  config_eq : e.config = config
  asked : KeySource.Asked keys e.keys
  activity : e.activity.Sound system keys config.messageLimit

theorem sound_new (system : SignatureSystem) (config : DeviceConfig) (keys : σ) :
    (new system config keys).Sound system config keys :=
  ⟨rfl, rfl, .refl keys, trivial⟩

variable {e e' : Engine σ} {tx : StagedTx}

theorem Sound.of_asks (hs : e.Sound system config keys) (h : e.Asks e') :
    e'.Sound system config keys :=
  ⟨h.system.trans hs.system_eq, h.config.trans hs.config_eq, hs.asked.trans h.keys,
    h.activity ▸ hs.activity⟩

theorem Sound.with_activity (hs : e.Sound system config keys) {a : Activity}
    (ha : a.Sound system keys config.messageLimit) :
    Engine.Sound system config keys { e with activity := a } :=
  ⟨hs.system_eq, hs.config_eq, hs.asked, ha⟩

theorem Sound.reset (hs : e.Sound system config keys) : e.reset.Sound system config keys :=
  hs.with_activity trivial

theorem Sound.remaining (hs : e.Sound system config keys) (htx : tx.Reviewed system keys)
    (queue : List TxSignature) :
    Engine.Sound system config keys { e with activity := .remaining tx queue } := by
  refine hs.with_activity ?_
  cases queue with
  | nil => exact trivial
  | cons s rest => exact ⟨htx, List.cons_ne_nil s rest⟩

theorem changeScript_ok {c : ChangeAddress} {script : Bytes}
    (h : (e.changeScript c).1 = .ok script) :
    ∃ k, (KeySource.derive e.keys
        (DerivationPath.address defaultAccount c.addressType c.addressIndex).elements).1 = some k ∧
      script = Device.p2pkScript (e.system.xOnly k.secret) := by
  have hask := e.derive_asks
    (DerivationPath.address defaultAccount c.addressType c.addressIndex).elements
  unfold changeScript at h
  split at h
  · rename_i k e₁ hd
    rw [hd] at hask
    cases h
    refine ⟨k, derive_ok (congrArg Prod.fst hd), ?_⟩
    rw [hask.system]
  · cases h

/-- The last input makes a partial transaction one that may be shown. -/
theorem Sound.reviewed {tx' : StagedTx} {data : Bytes} (hs : e.Sound system config keys)
    (hp : tx.Partial) (hpush : tx.pushInput data true = .ok tx') (hfee : tx'.checkFee = .ok ())
    (hchange : ∀ c, tx'.header.change = some c →
      ∃ script, (e.changeScript c).1 = .ok script ∧ tx'.checkChange script = .ok ()) :
    tx'.Reviewed system keys := by
  have hp' := hp.pushInput hpush
  obtain ⟨hout, -, hlast, i, -, -, rfl⟩ := StagedTx.pushInput_ok hpush
  refine ⟨hp', hout, ?_, StagedTx.checkFee_ok hfee, ?_⟩
  · rw [List.length_append]
    exact hlast rfl
  · intro c hc
    obtain ⟨script, hscript, hpaid⟩ := hchange c hc
    obtain ⟨k, hk, rfl⟩ := changeScript_ok hscript
    obtain ⟨o, ho, hpays⟩ := StagedTx.checkChange_ok hpaid
    rw [hs.system_eq] at hpays
    exact ⟨e.keys, k, o, hs.asked, hk, ho, hpays⟩

theorem Change.sound {ev : Event} {r : Except StatusWord Output}
    (h : e.Change ev r e') (hs : e.Sound system config keys) : e'.Sound system config keys := by
  have hact := hs.activity
  cases h with
  | told hx hask => exact hs.of_asks hask
  | refused hask => exact hs.of_asks hask
  | dropped hask => exact (hs.of_asks hask).reset
  | denied hpending => exact hs.reset
  | confirmed hno hask => exact (hs.of_asks hask).reset
  | keyShown hx hpath => exact hs.with_activity hpath
  | messageShown hx hparse hhash =>
    rw [hs.config_eq] at hparse
    exact hs.with_activity ⟨_, Device.parseMessage_ok hparse, rfl, hhash⟩
  | started hx hstart => exact hs.with_activity (StagedTx.start_partial hstart)
  | outputTaken hx ha hpush =>
    rw [ha] at hact
    exact hs.with_activity (StagedTx.Partial.pushOutput hact hpush)
  | inputTaken hx ha hpush =>
    rw [ha] at hact
    exact hs.with_activity (StagedTx.Partial.pushInput hact hpush)
  | completed hx ha hpush hfee hchange hask =>
    rw [ha] at hact
    exact (hs.of_asks hask).with_activity (hs.reviewed hact hpush hfee hchange)
  | fetched hx hf ha =>
    rw [ha] at hact
    exact hs.remaining hact.1 _
  | @released tx signatures rest s e₁ ha hsign hqueue =>
    rw [ha] at hact
    have hask := e.signInputs_asks tx 0 tx.inputs
    rw [hsign] at hask
    exact (hs.of_asks hask).remaining hact _
  | @stalled tx e₁ ha hsign =>
    -- a transaction that waits has an input, so there is a signature to hand out
    rw [ha] at hact
    have hlen := (signInputs_ok hsign (by simp)).1
    exact absurd (List.length_eq_zero_iff.1 hlen.symm) hact.inputs_ne

theorem Sound.step (hs : e.Sound system config keys) (ev : Event) :
    (e.step ev).2.Sound system config keys :=
  (e.step_change ev).sound hs

theorem Sound.after (hs : e.Sound system config keys) (evs : List Event) :
    (e.after evs).Sound system config keys := by
  induction evs generalizing e with
  | nil => exact hs
  | cons ev evs ih => exact ih (hs.step ev)

theorem sound_after (system : SignatureSystem) (config : DeviceConfig) (keys : σ)
    (evs : List Event) : ((new system config keys).after evs).Sound system config keys :=
  (sound_new system config keys).after evs

end Engine

end HardwareSigner
