import HardwareSigner.Proofs.Device.Signable
import HardwareSigner.Proofs.Wire.Records

/-! Requests for a key as a device takes them, against the records they are written as. The device
takes the path off the front of the payload and looks no further, while the record ends with its
path. So the two agree on every payload but those in which more bytes follow a request, and there
the device answers as to the request alone. -/

namespace HardwareSigner

namespace PublicKeyRequest

/-- A request stands at the front of the payload and more bytes come after it. -/
def Trailed (r : PublicKeyRequest) (data : Bytes) : Prop :=
  ∃ front more, data = front ++ more ∧ more ≠ [] ∧ read.decodeAll front = .ok r

variable {r : PublicKeyRequest} {data rest : Bytes} {path : DerivationPath}

theorem decodeAll_eq_ok :
    read.decodeAll data = .ok r ↔ r.display = false ∧ data = r.path.layout := by
  rw [Reader.decodeAll_eq_ok, read_eq_ok]
  simp

theorem decodeAll_of_path (h : DerivationPath.read data = .ok (path, rest)) :
    read.decodeAll data = if rest = [] then .ok ⟨path, false⟩ else .error .invalidLength := by
  have hread : read data = (Reader.ending >>= fun _ => pure ⟨path, false⟩ : Reader _) rest :=
    Reader.bind_of_ok h
  unfold Reader.decodeAll
  rw [hread]
  cases rest <;> rfl

theorem Trailed.decodeAll (h : r.Trailed data) :
    read.decodeAll data = .error .invalidLength := by
  obtain ⟨front, more, rfl, hmore, hfront⟩ := h
  obtain ⟨-, rfl⟩ := decodeAll_eq_ok.1 hfront
  rw [decodeAll_of_path ((DerivationPath.exact_read _ _ _).2 ⟨trivial, rfl⟩), if_neg hmore]

theorem decodeAll_or_trailed (h : DerivationPath.read data = .ok (path, rest)) :
    read.decodeAll data = .ok ⟨path, false⟩ ∨ (mk path false).Trailed data := by
  by_cases hrest : rest = []
  · exact .inl (by rw [decodeAll_of_path h, if_pos hrest])
  · obtain ⟨-, rfl⟩ := (DerivationPath.exact_read _ _ _).1 h
    exact .inr ⟨path.layout, rest, rfl, hrest, decodeAll_eq_ok.2 ⟨rfl, rfl⟩⟩

end PublicKeyRequest

namespace Engine

variable {σ : Type} [KeySource σ] {e : Engine σ} {f : Frame} {path : DerivationPath} {rest : Bytes}

/-- A key is told at once, and where it is to be confirmed it is kept pending. -/
def showKey (e : Engine σ) (p1 : UInt8) (path : DerivationPath) :
    Except StatusWord Output × Engine σ :=
  if p1 = 0 then ((e.publicKey path).1.map .data, (e.publicKey path).2)
  else (.ok .pending, { e with activity := .publicKeyPending path })

theorem getPublicKey_of_path (hp1 : f.p1 = 0 ∨ f.p1 = 1) (hp2 : f.p2 = 0)
    (h : DerivationPath.read f.data = .ok (path, rest)) :
    e.getPublicKey f = match Device.checkPath path with
      | .error s => (.error s, e)
      | .ok () => e.showKey f.p1 path := by
  have hdata : f.data.isEmpty = false := by
    rw [((DerivationPath.exact_read _ _ _).1 h).2]
    rfl
  have hparameters : (1 < f.p1 || f.p2 ≠ 0) = false := by
    rcases hp1 with hp1 | hp1 <;> simp [hp1, hp2]
  have hread : DerivationPath.read.decode f.data = .ok (path, f.data.length - rest.length) := by
    rw [Reader.decode, h]
  simp only [getPublicKey, hparameters, hdata, hread, showKey, Bool.false_eq_true, if_false]
  cases Device.checkPath path with
  | error s => rfl
  | ok u =>
    refine if_congr Iff.rfl ?_ rfl
    rcases e.publicKey path with ⟨_ | b, e'⟩ <;> rfl

theorem getPublicKey_of_no_path {err : WireError} (hp1 : f.p1 = 0 ∨ f.p1 = 1) (hp2 : f.p2 = 0)
    (h : DerivationPath.read f.data = .error err) :
    e.getPublicKey f = (.error .wrongDataLength, e) := by
  have hparameters : (1 < f.p1 || f.p2 ≠ 0) = false := by
    rcases hp1 with hp1 | hp1 <;> simp [hp1, hp2]
  have hread : DerivationPath.read.decode f.data = .error err := by
    rw [Reader.decode, h]
  simp only [getPublicKey, hparameters, hread, Bool.false_eq_true, if_false, ite_self]

/-- The key that a frame asks for is told, or waits to be confirmed. -/
def GrantsKey (e : Engine σ) (f : Frame) : Prop :=
  f.p1 = 0 ∧ (∃ k : PublicKey, (e.update f.layout).1 = .ok (.data k.layout)) ∨
    f.p1 = 1 ∧ (e.update f.layout).1 = .ok .pending

theorem grantsKey_iff (hcla : f.cla = appClass) (hins : f.ins = Instruction.getPublicKey.code)
    (hp1 : f.p1 = 0 ∨ f.p1 = 1) (hp2 : f.p2 = 0)
    (h : DerivationPath.read f.data = .ok (path, rest))
    (hkey : f.p1 = 0 → ∃ k, (KeySource.derive e.keys path.elements).1 = some k) :
    e.GrantsKey f ↔ Device.checkPath path = .ok () := by
  have hupdate : e.update f.layout = e.getPublicKey f := update_of_command hcla hins
  rw [GrantsKey, hupdate, getPublicKey_of_path hp1 hp2 h]
  cases Device.checkPath path with
  | error s => simp
  | ok u =>
    refine iff_of_true ?_ rfl
    rcases hp1 with hp1 | hp1
    · obtain ⟨k, hk⟩ := hkey hp1
      refine .inl ⟨hp1, ⟨e.system.publicKey k.secret, k.chainCode⟩, ?_⟩
      simp only [showKey, hp1, if_true, publicKey, derive_of_key hk]
      rfl
    · exact .inr ⟨hp1, by simp [showKey, hp1]⟩

/-- How a device takes a frame that asks for a key, by what the payload is as a record. -/
structure TakesKeyRequest (e : Engine σ) (f : Frame) : Prop where
  granted : (∀ r : PublicKeyRequest, ¬r.Trailed f.data) →
    (e.GrantsKey f ↔ ∃ r, PublicKeyRequest.read.decodeAll f.data = .ok r ∧
      Device.checkPath r.path = .ok ())
  refused : (∀ r : PublicKeyRequest, ¬r.Trailed f.data) →
    ∀ err, PublicKeyRequest.read.decodeAll f.data = .error err →
      e.update f.layout = (.error .wrongDataLength, e)
  /-- What follows a request is overlooked, though it makes the payload no request. -/
  overlooked : ∀ front more r, (hlen : front.length ≤ maxPayload) → f.data = front ++ more →
    more ≠ [] → PublicKeyRequest.read.decodeAll front = .ok r →
      PublicKeyRequest.read.decodeAll f.data = .error .invalidLength ∧
      e.update f.layout =
        e.update (Frame.layout { f with data := front, length_data := hlen }) ∧
      (e.GrantsKey f ↔ Device.checkPath r.path = .ok ())

/-- A device takes those requests for a key that the record describes, and refuses the rest by their
length. Only where a request is followed by more bytes does it differ: the record does not allow
them and the device does not look at them. -/
theorem takes_key_requests (e : Engine σ) (f : Frame) (hcla : f.cla = appClass)
    (hins : f.ins = Instruction.getPublicKey.code) (hp1 : f.p1 = 0 ∨ f.p1 = 1) (hp2 : f.p2 = 0)
    (hkeys : f.p1 = 0 → ∀ path rest, DerivationPath.read f.data = .ok (path, rest) →
      ∃ k, (KeySource.derive e.keys path.elements).1 = some k) :
    e.TakesKeyRequest f := by
  have hupdate : e.update f.layout = e.getPublicKey f := update_of_command hcla hins
  have hfront : ∀ {front more : Bytes} {r : PublicKeyRequest}, f.data = front ++ more →
      PublicKeyRequest.read.decodeAll front = .ok r →
      DerivationPath.read f.data = .ok (r.path, more) := by
    intro front more r hdata hr
    obtain ⟨-, rfl⟩ := PublicKeyRequest.decodeAll_eq_ok.1 hr
    exact (DerivationPath.exact_read _ _ _).2 ⟨trivial, hdata⟩
  refine ⟨fun hwhole => ?_, fun hwhole err herr => ?_, fun front more r hlen hdata hmore hr => ?_⟩
  · cases hread : DerivationPath.read f.data with
    | error err =>
      rw [GrantsKey, hupdate, getPublicKey_of_no_path hp1 hp2 hread]
      refine iff_of_false (by simp) ?_
      rintro ⟨r, hr, -⟩
      cases hread.symm.trans (hfront (List.append_nil _).symm hr)
    | ok found =>
      obtain ⟨path, rest⟩ := found
      rw [grantsKey_iff hcla hins hp1 hp2 hread fun h0 => hkeys h0 path rest hread]
      have hr := (PublicKeyRequest.decodeAll_or_trailed hread).resolve_right (hwhole _)
      rw [hr]
      simp
  · cases hread : DerivationPath.read f.data with
    | error err' => rw [hupdate, getPublicKey_of_no_path hp1 hp2 hread]
    | ok found =>
      obtain ⟨path, rest⟩ := found
      have hr := (PublicKeyRequest.decodeAll_or_trailed hread).resolve_right (hwhole _)
      cases hr.symm.trans herr
  · have hread := hfront hdata hr
    refine ⟨PublicKeyRequest.Trailed.decodeAll ⟨front, more, hdata, hmore, hr⟩, ?_,
      grantsKey_iff hcla hins hp1 hp2 hread fun h0 => hkeys h0 r.path more hread⟩
    obtain ⟨-, hlayout⟩ := PublicKeyRequest.decodeAll_eq_ok.1 hr
    have halone : DerivationPath.read front = .ok (r.path, []) :=
      (DerivationPath.exact_read _ _ _).2 ⟨trivial, by rw [hlayout, List.append_nil]⟩
    let g : Frame := { f with data := front, length_data := hlen }
    have hupdate' : e.update g.layout = e.getPublicKey g :=
      update_of_command (f := g) hcla hins
    rw [hupdate, hupdate', getPublicKey_of_path hp1 hp2 hread,
      getPublicKey_of_path (f := g) hp1 hp2 halone]

end Engine

namespace KeyRequestExample

def frame (p1 : UInt8) : Frame :=
  ⟨appClass, Instruction.getPublicKey.code, p1, 0, [2, 0x80, 0, 0, 44, 0x80, 1, 0xb2, 7, 0],
    by decide⟩

def request : PublicKeyRequest := ⟨⟨[purpose, coinType], by decide⟩, false⟩

end KeyRequestExample

open KeyRequestExample ReleaseExample in
theorem takes_key_requests_trailed :
    PublicKeyRequest.read.decodeAll (frame 0).data = .error .invalidLength ∧
      (Engine.new system config keys).GrantsKey (frame 0) := by
  have h := Engine.takes_key_requests (Engine.new system config keys) (frame 0) rfl rfl
    (.inl rfl) rfl fun _ _ _ _ => ⟨keys.key, rfl⟩
  obtain ⟨hread, -, hgranted⟩ := h.overlooked request.path.layout [0] request (by decide) rfl
    (by decide) rfl
  exact ⟨hread, hgranted.2 rfl⟩

open KeyRequestExample in
/-- The payload is no request, and yet the operator is asked to confirm a key. -/
theorem overlong_request_pending :
    PublicKeyRequest.read.decodeAll (frame 1).data = .error .invalidLength ∧
      ((Engine.new Secp256k1.system {} (Seed.mk (Block.zero 64))).update (frame 1).layout).1 =
        .ok .pending :=
  ⟨rfl, rfl⟩

end HardwareSigner
