import HardwareSigner.Proofs.Client.Completion
import HardwareSigner.Proofs.Device.Payload
import HardwareSigner.Proofs.Device.Withheld
import HardwareSigner.Proofs.Transaction.Digest
import HardwareSigner.Proofs.Wire.Answers

/-! A personal message from the wallet to the device and back. Every message has a frame; the device
reads off it the path and the hash that the wallet computes for itself, or refuses the message for
its address or its length. So the signature that an approval gives is one the wallet accepts. -/

namespace HardwareSigner

/-- A branch that is hardened stays as it is. -/
theorem or_hardened {a : UInt32} (h : hardened ≤ a) : a ||| hardened = a := by
  have htop : a.toBitVec[31] = true := by
    have hle : 2 ^ 31 ≤ a.toBitVec.toNat := UInt32.le_iff_toNat_le.1 h
    have hmsb := BitVec.msb_eq_decide a.toBitVec
    rwa [decide_eq_true hle] at hmsb
  have hbit : hardened.toBitVec = BitVec.twoPow 32 31 := by decide
  apply UInt32.toBitVec_inj.1
  ext i hi
  rw [UInt32.toBitVec_or, BitVec.getElem_or, hbit, BitVec.getElem_twoPow]
  by_cases hlast : i = 31
  · subst hlast
    simp [htop]
  · simp [hlast]

namespace PersonalMessage

/-- What a device asks of a message: an address of a hardened account, and a length it shows. -/
structure Shown (m : PersonalMessage) (limit : Nat) : Prop where
  addressType : m.addressType ≤ changeAddress
  account : hardened ≤ m.account
  nonempty : 1 ≤ m.bytes.length
  length_le : m.bytes.length ≤ limit

instance (m : PersonalMessage) (limit : Nat) : Decidable (m.Shown limit) :=
  decidable_of_iff (m.addressType ≤ changeAddress ∧ hardened ≤ m.account ∧
    1 ≤ m.bytes.length ∧ m.bytes.length ≤ limit)
    ⟨fun ⟨htype, haccount, hne, hle⟩ => ⟨htype, haccount, hne, hle⟩,
      fun h => ⟨h.addressType, h.account, h.nonempty, h.length_le⟩⟩

/-- Why a device does not take a message: what is wrong with the address goes first. -/
def refusal (m : PersonalMessage) : StatusWord :=
  if m.addressType ≤ changeAddress ∧ hardened ≤ m.account then
    if m.bytes.length = 0 then .messageTooShort else .messageTooLong
  else .messageAddressTypeFail

theorem isMessageError_refusal (m : PersonalMessage) : m.refusal.isMessageError = true := by
  unfold refusal
  split
  · split <;> rfl
  · rfl

variable (m : PersonalMessage)

theorem length_serialize : m.serialize.length = 10 + m.bytes.length := by
  simp [serialize]
  omega

theorem path_eq {m : PersonalMessage} (h : hardened ≤ m.account) :
    m.path =
      ⟨[purpose, coinType, m.account, m.addressType.toUInt32, m.addressIndex], by simp⟩ := by
  simp [path, DerivationPath.address, or_hardened h]

theorem ofRequest_toRecord (p1 p2 : UInt8) :
    ∃ f, Frame.ofRequest m.toRecord p1 p2 = .ok f ∧ f.data = m.serialize ∧ f.cla = appClass ∧
      f.ins = Instruction.signMessage.code ∧ f.p1 = p1 ∧ f.p2 = p2 := by
  have hencode : Record.encode m.toRecord = .ok m.serialize := m.encode_toRecord
  have hcount : Record.encodedLength m.toRecord = .ok m.serialize.length := by
    change m.toRecord.encode.map List.length = _
    rw [m.encode_toRecord]
    rfl
  have hlen : m.serialize.length ≤ maxPayload := by
    have hle : m.bytes.length ≤ 245 := m.length_text
    rw [m.length_serialize, maxPayload]
    omega
  obtain ⟨f, hf⟩ := Frame.ofRequest_complete hencode hcount hlen p1 p2
  obtain ⟨hdata, hcla, hins, hp1, hp2⟩ := Frame.ofRequest_ok hf
  exact ⟨f, hf, Except.ok.inj (hdata.symm.trans hencode), hcla, hins, hp1, hp2⟩

end PersonalMessage

namespace Device

/-- A device reads off its places what the wallet wrote, or refuses the message. -/
theorem parseMessage_serialize (m : PersonalMessage) (limit : Nat) :
    parseMessage m.serialize limit =
      if m.Shown limit then .ok ⟨m.path, m.bytes⟩ else .error m.refusal := by
  have hlen : m.bytes.length ≤ 255 := Nat.le_trans m.length_text (by decide)
  have hfields : m.serialize[0]? = some m.addressType ∧
      uint32At? m.serialize 1 = some m.addressIndex ∧ uint32At? m.serialize 5 = some m.account ∧
      m.serialize[9]? = some (UInt8.ofNat m.bytes.length) ∧ m.bytes.length ≤ 255 ∧
      m.serialize.drop 10 = m.bytes := (fields_iff (r := m.toRecord)).1 ⟨hlen, rfl⟩
  obtain ⟨hkind, hindex, haccount, hlength, -, hdrop⟩ := hfields
  have hbyte : (UInt8.ofNat m.bytes.length).toNat = m.bytes.length :=
    UInt8.toNat_ofNat_of_lt' (Nat.lt_succ_of_le hlen)
  rw [parseMessage_of_fields hkind hindex haccount hlength, hbyte, m.length_serialize, hdrop,
    List.take_length]
  by_cases haddress : m.addressType ≤ changeAddress ∧ hardened ≤ m.account
  case neg =>
    have hno : ¬m.Shown limit := fun h => haddress ⟨h.addressType, h.account⟩
    rw [if_neg haddress, if_neg hno, PersonalMessage.refusal, if_neg haddress]
  rw [if_pos haddress, PersonalMessage.refusal, if_pos haddress]
  by_cases hempty : m.bytes.length = 0
  case pos =>
    have hno : ¬m.Shown limit := fun h => Nat.ne_of_gt h.nonempty hempty
    rw [if_pos hempty, if_neg hno, if_pos hempty]
  rw [if_neg hempty]
  by_cases hlong : limit < m.bytes.length
  case pos =>
    have hno : ¬m.Shown limit := fun h => Nat.not_lt.2 h.length_le hlong
    rw [if_pos hlong, if_neg hno, if_neg hempty]
  have hshown : m.Shown limit :=
    ⟨haddress.1, haddress.2, Nat.pos_of_ne_zero hempty, Nat.not_lt.1 hlong⟩
  rw [if_neg hlong, if_neg (Nat.lt_irrefl _), if_neg fun h => h rfl, if_pos hshown,
    PersonalMessage.path_eq haddress.2]

end Device

namespace Engine

variable {σ : Type} [KeySource σ] {e : Engine σ} {m : PersonalMessage} {f : Frame}

/-- Whatever the device was in the middle of, it now waits for approval of the message, or it is
idle. -/
theorem update_message (e : Engine σ)
    (hf : Frame.ofRequest m.toRecord 0 Continuation.last.code = .ok f) :
    e.update f.layout = if m.Shown e.config.messageLimit then
        (.ok .pending, { e with activity := .messagePending m.path m.hash })
      else (.error m.refusal, e.reset) := by
  obtain ⟨f', hf', hdata, hcla, hins, hp1, hp2⟩ := m.ofRequest_toRecord 0 Continuation.last.code
  obtain rfl : f' = f := Except.ok.inj (hf'.symm.trans hf)
  have hsome : m.serialize.isEmpty = false := rfl
  have hlast : Continuation.last.code = 0 := rfl
  rw [update_of_command hcla hins]
  simp only [command, signMessage, hp1, hp2, hdata, hsome, hlast, Device.parseMessage_serialize]
  by_cases hshown : m.Shown e.config.messageLimit
  · simp only [hshown, if_true, Device.messageHash_eq]
    rfl
  · simp only [hshown, if_false]
    rfl

theorem approve_message {path : DerivationPath} {hash : Block 32} {k : DerivedKey}
    (hact : e.activity = .messagePending path hash)
    (hkey : (KeySource.derive e.keys path.elements).1 = some k) :
    e.approve = (.ok (MessageSignature.mk (e.system.sign k.secret hash).bytes
      (length_signature_le _) hash).layout,
      { e with keys := (KeySource.derive e.keys path.elements).2, activity := .idle }) := by
  unfold approve
  simp only [hact, signHash, derive_of_key hkey]
  rfl

end Engine

theorem Completion.decodeMessage_layout {wallet : SignatureSystem} {key : Block 33}
    {s : MessageSignature}
    (hverify : wallet.verifySchnorr key.xOnly s.signature s.messageHash = true) :
    decodeMessage wallet s.messageHash key s.layout = .ok ⟨s.signature, s.messageHash⟩ := by
  have hread : MessageSignature.read.decode s.layout = .ok (s, s.layout.length) := by
    rw [Reader.decode, MessageSignature.read_eq_ok.2 ⟨rfl, rfl⟩]
    rfl
  refine bind_eq_ok.2 ⟨_, by rw [hread]; rfl, ?_⟩
  simp [SignatureSystem.verify, hverify]
  rfl

/-- Every message has a frame. A device leaves it to the operator exactly if the address is one of
a hardened account and the message has a length that the device shows, whatever went on before. It
then holds the path and the hash that the wallet has, and what it answers to an approval passes the
check of the wallet by the key of this path, as long as the signature itself can be verified. Any
other message is refused as a message, and the device is idle. -/
theorem PersonalMessage.signing_agrees {σ : Type} [KeySource σ] (m : PersonalMessage) :
    ∃ f, Frame.ofRequest m.toRecord 0 Continuation.last.code = .ok f ∧ ∀ e : Engine σ,
      ((e.update f.layout).1 = .ok .pending ↔ m.Shown e.config.messageLimit) ∧
      (m.Shown e.config.messageLimit →
        (e.update f.layout).2 = { e with activity := .messagePending m.path m.hash } ∧
        ∀ (wallet : SignatureSystem) (k : DerivedKey),
          (KeySource.derive e.keys m.path.elements).1 = some k →
          wallet.verifySchnorr (e.system.xOnly k.secret) (e.system.sign k.secret m.hash).bytes
            m.hash = true →
          ∃ answer, (e.update f.layout).2.approve.1 = .ok answer ∧
            Completion.decodeMessage wallet m.hash
                (PublicKey.mk (e.system.publicKey k.secret) k.chainCode).compressed answer =
              .ok ⟨(e.system.sign k.secret m.hash).bytes, m.hash⟩) ∧
      (¬m.Shown e.config.messageLimit →
        e.update f.layout = (.error m.refusal, e.reset) ∧ m.refusal.isMessageError = true) := by
  obtain ⟨f, hf, -⟩ := m.ofRequest_toRecord 0 Continuation.last.code
  refine ⟨f, hf, fun e => ?_⟩
  have hupdate := e.update_message hf
  by_cases hshown : m.Shown e.config.messageLimit
  · rw [if_pos hshown] at hupdate
    refine ⟨⟨fun _ => hshown, fun _ => by rw [hupdate]⟩, fun _ => ⟨by rw [hupdate], ?_⟩,
      fun hno => absurd hshown hno⟩
    intro wallet k hkey hverify
    set key : PublicKey := ⟨e.system.publicKey k.secret, k.chainCode⟩
    have hcompressed : key.compressed.xOnly = e.system.xOnly k.secret := key.xOnly_compressed
    rw [← hcompressed] at hverify
    rw [hupdate]
    have happrove := Engine.approve_message
      (e := { e with activity := .messagePending m.path m.hash }) rfl hkey
    exact ⟨_, congrArg Prod.fst happrove, Completion.decodeMessage_layout hverify⟩
  · rw [if_neg hshown] at hupdate
    refine ⟨⟨fun hpending => ?_, fun h => absurd h hshown⟩, fun h => absurd h hshown,
      fun _ => ⟨hupdate, m.isMessageError_refusal⟩⟩
    rw [hupdate] at hpending
    cases hpending

theorem SimDevice.approve_message {σ : Type} [KeySource σ] {d : SimDevice σ} {path : DerivationPath}
    {hash : Block 32} {k : DerivedKey} (hact : d.engine.activity = .messagePending path hash)
    (hkey : (KeySource.derive d.engine.keys path.elements).1 = some k) :
    ∃ engine, d.approve = (.ok (), { d with
        engine, response := some (resolved (.ok
          (MessageSignature.mk (d.engine.system.sign k.secret hash).bytes
            (Engine.length_signature_le _) hash).layout)) }) ∧
      engine.activity = .idle := by
  have hpending : d.isPending = true := by
    rw [isPending, Engine.isPending, hact]
    rfl
  rw [approve_of_pending hpending, Engine.approve_message hact hkey]
  exact ⟨_, rfl, rfl⟩

namespace Handle

variable {σ : Type} [KeySource σ] {m : PersonalMessage} {k : DerivedKey}

theorem run_signMessage (h : Handle) (d : SimDevice σ) (hpolicy : d.policy = .manual)
    (hshown : m.Shown d.engine.config.messageLimit)
    (hkey : (KeySource.derive d.engine.keys m.path.elements).1 = some k)
    (hformat : (d.engine.system.publicKey k.secret).bytes.head? = some PublicKey.uncompressed) :
    ∃ sent, (h.signMessage m).run.run d = (some (.ok (h.pendingOn (.message h.system m.hash
          (PublicKey.mk (d.engine.system.publicKey k.secret) k.chainCode).compressed))), sent) ∧
      sent.engine.system = d.engine.system ∧ KeySource.Asked d.engine.keys sent.engine.keys ∧
      sent.engine.activity = .messagePending m.path m.hash := by
  obtain ⟨told, hask, htells⟩ := h.run_publicKey d
    (Device.checkPath_address m.account hshown.addressType m.addressIndex) hkey hformat
  obtain ⟨f, hf, -⟩ := m.ofRequest_toRecord 0 Continuation.last.code
  have hupdate := told.engine.update_message hf
  rw [if_pos (htells.engine.config ▸ hshown)] at hupdate
  have hsend := SimDevice.run_submit_pending h.config.requestTimeout
    (htells.policy.trans hpolicy) hupdate
  refine ⟨{ told with engine := { told.engine with activity := .messagePending m.path m.hash } },
    ?_, htells.engine.system, htells.engine.keys, rfl⟩
  refine (Exchange.run_bind hask _).trans ?_
  rw [hf]
  exact Exchange.run_taking (Exchange.run_bind hsend _)

/-- The wallet asks for the key and sends the message, the operator approves, and the wallet has a
signature that passes its check. -/
theorem signMessage_complete (h : Handle) (d : SimDevice σ) (hpolicy : d.policy = .manual)
    (hshown : m.Shown d.engine.config.messageLimit)
    (hkey : ∀ source, KeySource.Asked d.engine.keys source →
      (KeySource.derive source m.path.elements).1 = some k)
    (hformat : (d.engine.system.publicKey k.secret).bytes.head? = some PublicKey.uncompressed)
    (hverify : h.system.verifySchnorr (d.engine.system.xOnly k.secret)
      (d.engine.system.sign k.secret m.hash).bytes m.hash = true) :
    ∃ pending sent, (h.signMessage m).run.run d = (some (.ok pending), sent) ∧
      ∃ approved, sent.approve = (.ok (), approved) ∧
      ∃ done, pending.resolve.run.run approved = (some (.ok (.approved
        ⟨(d.engine.system.sign k.secret m.hash).bytes, m.hash⟩)), done) ∧
        done.engine.activity = .idle := by
  obtain ⟨sent, hrun, hsystem, hasked, hact⟩ :=
    h.run_signMessage d hpolicy hshown (hkey _ (.refl _)) hformat
  obtain ⟨engine, happrove, hidle⟩ := SimDevice.approve_message hact (hkey _ hasked)
  rw [hsystem] at happrove
  set key : PublicKey := ⟨d.engine.system.publicKey k.secret, k.chainCode⟩
  have hxOnly : key.compressed.xOnly = d.engine.system.xOnly k.secret := key.xOnly_compressed
  rw [← hxOnly] at hverify
  set answer : MessageSignature :=
    ⟨(d.engine.system.sign k.secret m.hash).bytes, Engine.length_signature_le _, m.hash⟩
  have hresolve := PendingApproval.run_resolve
    (p := h.pendingOn (.message h.system m.hash key.compressed))
    (Completion.decodeMessage_layout (s := answer) hverify)
    (rfl : Transport.receive { sent with
      engine, response := some (SimDevice.resolved (.ok answer.layout)) } = _)
  exact ⟨_, sent, hrun, _, happrove, _, hresolve, hidle⟩

end Handle

namespace MessageExample

open ReleaseExample (OneKey keys)

/-- Sixteen bytes for the tenth change address of the third account. -/
def message : PersonalMessage := ⟨"sixteen bytes ok", by decide, 1, 9, hardened ||| 2⟩

/-- A device that shows messages of so many bytes, in the middle of a transaction. -/
def engine (limit : Nat) : Engine OneKey :=
  { CompletionExample.device.engine with config := { messageLimit := limit } }

theorem shown : message.Shown 16 where
  addressType := by decide
  account := by decide
  nonempty := by decide
  length_le := by decide

theorem not_shown : ¬message.Shown 15 := by
  intro h
  have hle : 16 ≤ 15 := h.length_le
  omega

theorem verifies : CompletionExample.wallet.verifySchnorr
    (Secp256k1.system.xOnly keys.key.secret)
    (Secp256k1.system.sign keys.key.secret message.hash).bytes message.hash = true := by
  simp only [CompletionExample.wallet, decide_eq_true_eq]
  exact ⟨_, rfl, rfl⟩

end MessageExample

open MessageExample in
theorem signing_agrees_sixteen_bytes :
    ∃ f, Frame.ofRequest message.toRecord 0 Continuation.last.code = .ok f ∧
      ((engine 16).update f.layout).1 = .ok .pending ∧
      (∃ answer, ((engine 16).update f.layout).2.approve.1 = .ok answer ∧
        ∃ signed, Completion.decodeMessage CompletionExample.wallet message.hash
          (PublicKey.mk (Secp256k1.system.publicKey ReleaseExample.keys.key.secret)
            ReleaseExample.keys.key.chainCode).compressed answer = .ok signed) ∧
      (engine 15).update f.layout = (.error .messageTooLong, (engine 15).reset) := by
  obtain ⟨f, hf, hagrees⟩ := message.signing_agrees (σ := ReleaseExample.OneKey)
  obtain ⟨hpending, hshown, -⟩ := hagrees (engine 16)
  obtain ⟨-, -, hrefused⟩ := hagrees (engine 15)
  obtain ⟨answer, happrove, hdecode⟩ := (hshown shown).2 _ ReleaseExample.keys.key rfl verifies
  exact ⟨f, hf, hpending.2 shown, ⟨answer, happrove, _, hdecode⟩, (hrefused not_shown).1⟩

end HardwareSigner
