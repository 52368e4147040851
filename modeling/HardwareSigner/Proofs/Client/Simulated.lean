import HardwareSigner.Client.Handle
import HardwareSigner.Link.Direct
import HardwareSigner.Proofs.Client.Runs
import HardwareSigner.Proofs.Device.Requests

/-! A wallet that talks to a simulated device. Keys are told at once and change nothing that an
exchange depends on; the pieces of a transaction that a device grants all arrive, and the last one
is left to the operator. -/

namespace HardwareSigner

variable {σ : Type} [KeySource σ]

/-- The compressed key says the first coordinate of the key of this input's address. -/
def TransactionInput.OwnedBy (i : TransactionInput) (system : SignatureSystem)
    (key : UInt8 → UInt32 → DerivedKey) (k : Block 33) : Prop :=
  k.xOnly = system.xOnly (key i.addressType i.addressIndex).secret

theorem PublicKey.xOnly_compressed (k : PublicKey) : k.compressed.xOnly = k.xOnly := by
  ext1
  simp [compressed, Block.xOnly, Block.slice, k.xOnly.length_bytes]

theorem DerivationPath.length_layout_le (p : DerivationPath) : p.layout.length ≤ maxPayload := by
  have hdepth : p.depth ≤ 10 := p.depth_le
  rw [p.length_layout, maxPayload]
  omega

/-- Both kinds of addresses of an account are under paths that a device shows keys for. -/
theorem Device.checkPath_address (account : UInt32) {addressType : UInt8} (h : addressType ≤ 1)
    (index : UInt32) : checkPath (.address account addressType index) = .ok () := by
  have hkind : ¬changeAddress.toUInt32 < addressType.toUInt32 := by
    rw [UInt32.lt_iff_toNat_lt]
    have := UInt8.le_iff_toNat_le.1 h
    simpa [changeAddress] using this
  simp [checkPath, DerivationPath.address, DerivationPath.depth, hkind]

namespace Engine

theorem getPublicKey_of_key {e : Engine σ} {f : Frame} {path : DerivationPath} {k : DerivedKey}
    (hp1 : f.p1 = 0) (hp2 : f.p2 = 0) (hdata : f.data = path.layout)
    (hpath : Device.checkPath path = .ok ())
    (hkey : (KeySource.derive e.keys path.elements).1 = some k) :
    e.getPublicKey f = (.ok (.data (PublicKey.mk (e.system.publicKey k.secret) k.chainCode).layout),
      { e with keys := (KeySource.derive e.keys path.elements).2 }) := by
  have hread : DerivationPath.read f.data = .ok (path, []) :=
    (DerivationPath.exact_read _ _ _).2 ⟨trivial, by rw [hdata, List.append_nil]⟩
  rw [getPublicKey_of_path (.inl hp1) hp2 hread, hpath]
  simp only [showKey, hp1, if_true, publicKey, derive_of_key hkey]
  rfl

end Engine

namespace SimDevice

variable {d d' d'' : SimDevice σ} {e : Engine σ} {f : Frame}

/-- A frame that the device answers at once. -/
theorem run_request {b : Bytes} (limit : Nat)
    (h : d.engine.update f.layout = (.ok (.data b), e)) :
    (Exchange.request limit f).run.run d =
      (some (.ok b), { d with engine := e, response := none }) := by
  have hsubmit : Transport.submit d f.layout =
      (.accepted, { d with engine := e, response := some (resolved (.ok b)) }) := by
    change (Sent.accepted, d.submit f.layout) = _
    simp only [submit, respond, h]
  exact Exchange.run_request limit hsubmit rfl

/-- A frame that the device leaves to the operator. -/
theorem run_submit_pending (limit : Nat) (hpolicy : d.policy = .manual)
    (h : d.engine.update f.layout = (.ok .pending, e)) :
    (Exchange.submit limit f).run.run d = (some (.ok ()), { d with engine := e }) := by
  refine Exchange.run_submit limit ?_
  change (Sent.accepted, d.submit f.layout) = _
  simp only [submit, respond, h, hpolicy]

/-- The device has told keys, and nothing else has changed but what waits to be fetched. -/
structure Tells (d d' : SimDevice σ) : Prop where
  policy : d'.policy = d.policy
  engine : d.engine.Asks d'.engine

theorem Tells.refl (d : SimDevice σ) : d.Tells d := ⟨rfl, .refl _⟩

theorem Tells.trans (h : d.Tells d') (h' : d'.Tells d'') : d.Tells d'' :=
  ⟨h'.policy.trans h.policy, h.engine.trans h'.engine⟩

end SimDevice

namespace Handle

variable {d : SimDevice σ} {key : UInt8 → UInt32 → DerivedKey} {cs : List Chunk}

theorem run_query {α τ : Type} [Request α] [Transport τ] {h : Handle} {r : α} {p1 : UInt8}
    {f : Frame} {b : Bytes} {t t' : τ} (hf : Frame.ofRequest r p1 Continuation.last.code = .ok f)
    (hrequest : (Exchange.request h.config.requestTimeout f).run.run t = (some (.ok b), t')) :
    (h.query r p1).run.run t = (some (.ok b), t') := by
  unfold query
  rw [hf]
  exact Exchange.run_holding hrequest

theorem run_publicKey (h : Handle) (d : SimDevice σ) {path : DerivationPath} {k : DerivedKey}
    (hpath : Device.checkPath path = .ok ())
    (hkey : (KeySource.derive d.engine.keys path.elements).1 = some k)
    (hformat : (d.engine.system.publicKey k.secret).bytes.head? = some PublicKey.uncompressed) :
    ∃ d', (h.publicKey path).run.run d =
      (some (.ok ⟨d.engine.system.publicKey k.secret, k.chainCode⟩), d') ∧ d.Tells d' := by
  set told : PublicKey := ⟨d.engine.system.publicKey k.secret, k.chainCode⟩
  obtain ⟨f, hf⟩ := Frame.ofRequest_complete (r := PublicKeyRequest.mk path false) rfl rfl
    path.length_layout_le 0 Continuation.last.code
  obtain ⟨hdata, hcla, hins, hp1, hp2⟩ := Frame.ofRequest_ok hf
  have hask := d.engine.derive_asks path.elements
  rw [Engine.derive_of_key hkey] at hask
  have hupdate := Engine.getPublicKey_of_key hp1 hp2 (Except.ok.inj hdata).symm hpath hkey
  have hframe : d.engine.update f.layout = d.engine.getPublicKey f :=
    Engine.update_of_command hcla hins
  have hrequest := SimDevice.run_request h.config.requestTimeout (hframe.trans hupdate)
  have hdecode : Completion.decodeKey told.layout = .ok told := by
    rw [Completion.decodeKey, Reader.decode, PublicKey.read_eq_ok.2 ⟨hformat, rfl, rfl⟩]
  set after : SimDevice σ :=
    ⟨{ d.engine with keys := (KeySource.derive d.engine.keys path.elements).2 }, d.policy, none⟩
  have hrun : (h.publicKey path).run.run d = (some (.ok told), after) := by
    refine (Exchange.run_bind (run_query hf hrequest) _).trans ?_
    rw [Exchange.run_lift, hdecode]
  exact ⟨after, hrun, rfl, hask⟩

def inputKey (h : Handle) (i : TransactionInput) : Exchange (Block 33) :=
  match i.publicKey with
  | some k => pure k
  | none => PublicKey.compressed <$> h.publicKey i.path

theorem inputKeys_cons (h : Handle) (i : TransactionInput) (rest : List TransactionInput) :
    h.inputKeys (i :: rest) =
      h.inputKey i >>= fun k => h.inputKeys rest >>= fun ks => pure (k :: ks) := by
  unfold inputKey
  rw [inputKeys]
  cases i.publicKey <;> rfl

theorem run_inputKey (h : Handle) (d : SimDevice σ) {i : TransactionInput}
    (hkeys : KeySource.Gives d.engine.keys key) (htype : i.addressType ≤ 1)
    (hformat : ∀ k, (d.engine.system.publicKey k).bytes.head? = some PublicKey.uncompressed)
    (hknown : ∀ k, i.publicKey = some k → i.OwnedBy d.engine.system key k) :
    ∃ k d', (h.inputKey i).run.run d = (some (.ok k), d') ∧ d.Tells d' ∧
      i.OwnedBy d.engine.system key k := by
  unfold inputKey
  cases hi : i.publicKey with
  | some k => exact ⟨k, d, rfl, .refl d, hknown k hi⟩
  | none =>
    set k := key i.addressType i.addressIndex
    have hkey := hkeys d.engine.keys (.refl _) i.addressType htype i.addressIndex
    obtain ⟨d', hrun, htells⟩ := h.run_publicKey d
      (Device.checkPath_address defaultAccount htype i.addressIndex) hkey (hformat k.secret)
    have hcompressed := PublicKey.xOnly_compressed ⟨d.engine.system.publicKey k.secret, k.chainCode⟩
    refine ⟨_, d', ?_, htells, hcompressed⟩
    exact Exchange.run_bind hrun _

/-- Keys that are not known yet are asked for; all of them are those of the inputs. -/
theorem run_inputKeys (h : Handle) (d : SimDevice σ) {inputs : List TransactionInput}
    (hkeys : KeySource.Gives d.engine.keys key) (htypes : ∀ i ∈ inputs, i.addressType ≤ 1)
    (hformat : ∀ k, (d.engine.system.publicKey k).bytes.head? = some PublicKey.uncompressed)
    (hknown : ∀ i ∈ inputs, ∀ k, i.publicKey = some k → i.OwnedBy d.engine.system key k) :
    ∃ ks d', (h.inputKeys inputs).run.run d = (some (.ok ks), d') ∧ d.Tells d' ∧
      List.Forall₂ (fun i k => i.OwnedBy d.engine.system key k) inputs ks := by
  induction inputs generalizing d with
  | nil => exact ⟨[], d, rfl, .refl d, .nil⟩
  | cons i rest ih =>
    obtain ⟨htype, htypes⟩ := List.forall_mem_cons.1 htypes
    obtain ⟨hfirst, hknown⟩ := List.forall_mem_cons.1 hknown
    obtain ⟨k, d₁, hrun, htells, howned⟩ := h.run_inputKey d hkeys htype hformat hfirst
    have hsystem := htells.engine.system
    obtain ⟨ks, d₂, hrest, htells', hall⟩ := ih d₁ (hkeys.asked htells.engine.keys) htypes
      (hsystem ▸ hformat) (hsystem ▸ hknown)
    refine ⟨k :: ks, d₂, ?_, htells.trans htells', .cons howned (hsystem ▸ hall)⟩
    rw [inputKeys_cons]
    exact (Exchange.run_bind hrun _).trans (Exchange.run_bind hrest _)

/-- The pieces that a device grants are sent up to the last one, which the operator answers. -/
theorem run_sendChunks (h : Handle) {e : Engine σ} (hcs : Chunk.Ended cs)
    (hpolicy : d.policy = .manual)
    (hfeed : d.engine.feed (cs.map fun c => c.frame.layout) = (cs.map Chunk.granted, e)) :
    ∃ d', (h.sendChunks (cs.map .ok)).run.run d = (some (.ok ()), d') ∧
      d'.policy = .manual ∧ d'.engine = e := by
  induction hcs generalizing d with
  | @last c hc =>
    rw [List.map_singleton, List.map_singleton, Chunk.granted, if_pos hc] at hfeed
    obtain ⟨e', hupdate, hrest⟩ := Engine.feed_cons_eq hfeed
    cases hrest
    refine ⟨{ d with engine := e }, ?_, hpolicy, rfl⟩
    refine (Exchange.run_bind (Exchange.run_lift (.ok c) d) _).trans ?_
    rw [if_pos hc]
    exact SimDevice.run_submit_pending _ hpolicy hupdate
  | @more c cs hc _ ih =>
    rw [List.map_cons, List.map_cons, Chunk.granted, if_neg (by simp [hc])] at hfeed
    obtain ⟨e', hupdate, hrest⟩ := Engine.feed_cons_eq hfeed
    obtain ⟨d', hrun, hd'⟩ := ih (d := { d with engine := e', response := none }) hpolicy hrest
    refine ⟨d', ?_, hd'⟩
    refine (Exchange.run_bind (Exchange.run_lift (.ok c) d) _).trans ?_
    rw [if_neg (by simp [hc])]
    exact (Exchange.run_bind (SimDevice.run_request _ hupdate) _).trans hrun

end Handle

end HardwareSigner
