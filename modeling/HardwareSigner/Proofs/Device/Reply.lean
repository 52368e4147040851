import HardwareSigner.Device.Simulated
import HardwareSigner.Proofs.Device.Change
import HardwareSigner.Proofs.Wire.Answers

/-! What an engine replies to frames where a policy decides at once: each frame is taken, and what
it leaves pending is approved or denied before the next. Nothing is left pending then, and every
reply is short enough to be read behind its length. -/

namespace HardwareSigner.Engine

variable {σ : Type} [KeySource σ] {e e' : Engine σ} {apdu : Bytes} {policy : ApprovalPolicy}

/-- Data behind which the status word tells of success, or the status word of a refusal. -/
def replied : Except StatusWord Bytes → Bytes
  | .ok b => b ++ [0x90, 0x00]
  | .error s => Bytes.ofUInt16BE s.code

/-- The reply to a frame and the engine after it. What the frame leaves pending is decided. -/
def settle (policy : ApprovalPolicy) (e : Engine σ) (apdu : Bytes) : Bytes × Engine σ :=
  match e.update apdu with
  | (.ok (.data b), e) => (replied (.ok b), e)
  | (.error s, e) => (replied (.error s), e)
  | (.ok .pending, e) =>
    if policy = .deny then ([0x69, 0x85], e.deny.2) else (replied e.approve.1, e.approve.2)

/-- The engine after these frames. -/
def settled (policy : ApprovalPolicy) (e : Engine σ) (frames : List Bytes) : Engine σ :=
  frames.foldl (fun e apdu => (settle policy e apdu).2) e

/-- The replies to these frames, each by the engine as the frames before have left it. -/
def replies (policy : ApprovalPolicy) : Engine σ → List Bytes → List Bytes
  | _, [] => []
  | e, apdu :: frames => (settle policy e apdu).1 :: replies policy (settle policy e apdu).2 frames

theorem settled_concat (frames : List Bytes) :
    settled policy e (frames ++ [apdu]) = (settle policy (settled policy e frames) apdu).2 := by
  simp only [settled, List.foldl_append, List.foldl_cons, List.foldl_nil]

theorem replies_append (frames more : List Bytes) : replies policy e (frames ++ more) =
    replies policy e frames ++ replies policy (settled policy e frames) more := by
  induction frames generalizing e with
  | nil => rfl
  | cons apdu frames ih => exact congrArg _ ih

omit [KeySource σ] in
theorem replied_eq_resolved (r : Except StatusWord Bytes) : replied r = SimDevice.resolved r := by
  cases r <;> rfl

/-- A device that decides by itself replies what its engine does. -/
theorem respond_eq_settle (hpolicy : policy ≠ .manual) (e : Engine σ) (apdu : Bytes) :
    SimDevice.respond policy e apdu =
      (some (settle policy e apdu).1, (settle policy e apdu).2) := by
  unfold SimDevice.respond settle
  rcases e.update apdu with ⟨s | b | _, e'⟩
  · rfl
  · rfl
  · cases policy with
    | manual => exact absurd rfl hpolicy
    | approve => simp [replied_eq_resolved]
    | deny => rfl

/-! ### Nothing is left pending -/

omit [KeySource σ] in
theorem isPending_deny (e : Engine σ) : e.deny.2.isPending = false := by
  unfold deny
  split
  · rfl
  · rename_i h
    exact Bool.eq_false_iff.2 h

omit [KeySource σ] in
theorem isPending_nextSignature {tx : StagedTx} {queue : List TxSignature}
    (h : e.activity = .signing tx queue) : e.nextSignature.2.isPending = false := by
  unfold nextSignature
  rcases queue with _ | ⟨s, rest⟩
  · rw [h]
    change e.activity.isPending = false
    rw [h]
    rfl
  · rw [h]
    cases rest <;> rfl

theorem isPending_approve (e : Engine σ) : e.approve.2.isPending = false := by
  unfold approve
  split
  · rfl
  · rfl
  · unfold approveTx
    split
    · rfl
    · exact isPending_nextSignature rfl
  · rename_i hkey hmessage htx
    change e.activity.isPending = false
    cases hact : e.activity with
    | publicKeyPending path => exact absurd hact (hkey path)
    | messagePending path hash => exact absurd hact (hmessage path hash)
    | txPending tx => exact absurd hact (htx tx)
    | idle | staging _ | signing _ _ => rfl

/-- A frame that leaves nothing to decide leaves nothing pending but what was so before. -/
theorem Change.settled {r : Except StatusWord Output} (h : e.Change (.frame apdu) r e')
    (hr : r ≠ .ok .pending) (hpending : e'.isPending = true) : e'.activity = e.activity := by
  cases h with
  | told _ hask => exact hask.activity
  | refused hask => exact hask.activity
  | dropped _ | started _ _ | outputTaken _ _ _ | inputTaken _ _ _ => cases hpending
  | keyShown _ _ | messageShown _ _ _ | completed _ _ _ _ _ _ => exact absurd rfl hr
  | fetched _ _ _ =>
    rename_i rest _ _ _
    cases rest <;> cases hpending

theorem settle_pending (h : (settle policy e apdu).2.isPending = true) :
    (settle policy e apdu).2.activity = e.activity := by
  have hchange := e.update_change apdu
  unfold settle at h ⊢
  rcases hupdate : e.update apdu with ⟨s | b | _, e'⟩ <;> rw [hupdate] at h hchange
  · exact hchange.settled (by simp) h
  · exact hchange.settled (by simp) h
  · dsimp only at h
    split at h
    · rw [isPending_deny] at h
      cases h
    · rw [isPending_approve] at h
      cases h

/-! ### The set-up stays -/

theorem signInputs_config {tx : StagedTx} {index : Nat} {inputs : List TxInput}
    {r : Except StatusWord (List TxSignature)} (h : e.signInputs tx index inputs = (r, e')) :
    e'.config = e.config := by
  have hask := e.signInputs_asks tx index inputs
  rw [h] at hask
  exact hask.config

theorem Change.config {ev : Event} {r : Except StatusWord Output} (h : e.Change ev r e') :
    e'.config = e.config := by
  cases h with
  | told _ hask | refused hask | dropped hask | confirmed _ hask => exact hask.config
  | completed _ _ _ _ _ hask => exact hask.config
  | denied _ | keyShown _ _ | messageShown _ _ _ => rfl
  | started _ _ | outputTaken _ _ _ | inputTaken _ _ _ | fetched _ _ _ => rfl
  | released _ hsign _ => exact (signInputs_config hsign :)
  | stalled _ hsign => exact (signInputs_config hsign :)

theorem settle_config (policy : ApprovalPolicy) (e : Engine σ) (apdu : Bytes) :
    (settle policy e apdu).2.config = e.config := by
  have hchange := (e.update_change apdu).config
  unfold settle
  rcases hupdate : e.update apdu with ⟨s | b | _, e'⟩ <;> rw [hupdate] at hchange
  · exact hchange
  · exact hchange
  · dsimp only
    split
    · exact (e'.step_change .denial).config.trans hchange
    · exact e'.approve_change.config.trans hchange

theorem settled_config (policy : ApprovalPolicy) (e : Engine σ) (frames : List Bytes) :
    (settled policy e frames).config = e.config := by
  induction frames generalizing e with
  | nil => rfl
  | cons apdu frames ih => exact (ih _).trans (settle_config policy e apdu)

/-! ### Replies are short -/

/-- Data that a reply has room for. -/
def Short (r : Except StatusWord Bytes) : Prop := ∀ b, r = .ok b → b.length ≤ Frame.maxLength

/-- An output whose data, if it has any, a reply has room for. -/
def ShortOutput (r : Except StatusWord Output) : Prop :=
  ∀ b, r = .ok (.data b) → b.length ≤ Frame.maxLength

theorem short_error (s : StatusWord) : Short (.error s) := nofun

theorem shortOutput_error (s : StatusWord) : ShortOutput (.error s) := nofun

theorem shortOutput_pending : ShortOutput (.ok .pending) := nofun

theorem shortOutput_empty : ShortOutput (.ok (.data [])) := by
  intro b hb
  cases hb
  exact Nat.zero_le _

theorem short_answer {α : Type} [Record α] {r : α} {b : Bytes} (hencode : Record.encode r = .ok b)
    (hlen : b.length ≤ Frame.maxLength) : Short (answer r) := by
  intro b' hb
  rw [answer, hencode] at hb
  cases hb
  exact hlen

theorem short_publicKey (e : Engine σ) (path : DerivationPath) : Short (e.publicKey path).1 := by
  unfold publicKey
  split
  · dsimp only
    refine short_answer rfl ?_
    change _ ≤ 260
    simp [PublicKey.layout, Block.length_bytes]
  · exact short_error _

theorem short_signHash (e : Engine σ) (path : DerivationPath) (hash : Block 32) :
    Short (e.signHash path hash).1 := by
  unfold signHash
  split
  · exact short_error _
  · dsimp only
    refine short_answer rfl ?_
    change _ ≤ 260
    simp [MessageSignature.layout, Block.length_bytes]

omit [KeySource σ] in
theorem short_nextSignature (e : Engine σ) : Short e.nextSignature.1 := by
  unfold nextSignature
  split
  · rename_i s rest _
    dsimp only
    refine short_answer rfl ?_
    have hsignature : s.signature.length ≤ 72 := s.length_signature
    change _ ≤ 260
    simp only [TxSignature.layout, List.length_cons, List.length_append, Block.length_bytes]
    omega
  · exact short_error _

theorem short_approve (e : Engine σ) : Short e.approve.1 := by
  unfold approve
  split
  · exact e.short_publicKey _
  · exact e.short_signHash _ _
  · unfold approveTx
    split
    · exact short_error _
    · exact short_nextSignature _
  · exact short_error _

theorem ofText_append (s t : String) :
    Bytes.ofText (s ++ t) = Bytes.ofText s ++ Bytes.ofText t := by
  simp [Bytes.ofText]

theorem length_ofText_version (v : AppVersion) : (Bytes.ofText v.text).length ≤ 11 := by
  have hall : ∀ n : Fin 256, (Bytes.ofText n.val.repr).length ≤ 3 := by decide +kernel
  have hpart : ∀ x : UInt8, (Bytes.ofText x.toNat.repr).length ≤ 3 :=
    fun x => hall ⟨x.toNat, x.toNat_lt⟩
  have hmajor := hpart v.major
  have hminor := hpart v.minor
  have hpatch := hpart v.patch
  have hpoint : (Bytes.ofText ".").length = 1 := by decide
  simp only [AppVersion.text, ofText_append, List.length_append, hpoint]
  omega

/-- A name that leaves room for version and flags beside it. -/
def Named (e : Engine σ) : Prop := (Bytes.ofText e.config.name).length ≤ 244

omit [KeySource σ] in
theorem Named.short_appInfo (h : e.Named) : Short (answer e.appInfo) := by
  have hname : (Bytes.ofText e.config.name).length ≤ 244 := h
  have hversion := length_ofText_version e.config.version
  refine short_answer (AppInfo.encode_eq (i := e.appInfo) ⟨?_, ?_, ?_⟩) ?_
  · exact hname.trans (by decide)
  · exact hversion.trans (by decide)
  · exact Nat.le_add_left 1 254
  · change _ ≤ 260
    simp only [AppInfo.layout, AppInfo.field, appInfo, List.length_cons, List.length_append,
      List.length_nil]
    omega

omit [KeySource σ] in
theorem shortOutput_query {r : Except StatusWord Bytes} (h : Short r) :
    ShortOutput (e.query r).1 := by
  intro b hb
  unfold query at hb
  split at hb
  · cases hb
    exact h b rfl
  · cases hb

theorem shortOutput_getPublicKey (e : Engine σ) (f : Frame) : ShortOutput (e.getPublicKey f).1 := by
  unfold getPublicKey
  split
  · exact shortOutput_error _
  split
  · exact shortOutput_error _
  split
  · exact shortOutput_error _
  rename_i path _ _
  split
  · exact shortOutput_error _
  split
  · have hshort := e.short_publicKey path
    split <;> rename_i hkey <;> rw [hkey] at hshort
    · intro b hb
      cases hb
      exact hshort _ rfl
    · exact shortOutput_error _
  · exact shortOutput_pending

omit [KeySource σ] in
theorem shortOutput_signMessage (e : Engine σ) (f : Frame) : ShortOutput (e.signMessage f).1 := by
  unfold signMessage
  split
  · exact shortOutput_error _
  split
  · exact shortOutput_error _
  split
  · exact shortOutput_error _
  split
  · exact shortOutput_error _
  · exact shortOutput_pending

theorem shortOutput_review (e : Engine σ) (tx : StagedTx) : ShortOutput (e.review tx).1 := by
  unfold review
  split
  · exact shortOutput_error _
  split
  · exact shortOutput_pending
  split
  · exact shortOutput_error _
  split
  · exact shortOutput_error _
  · exact shortOutput_pending

omit [KeySource σ] in
theorem shortOutput_dropOnError {r : Except StatusWord Output × Engine σ} (h : ShortOutput r.1) :
    ShortOutput (dropOnError r).1 := by
  unfold dropOnError
  split
  · exact h
  · exact shortOutput_error _

theorem shortOutput_stageInput (e : Engine σ) (data : Bytes) (last : Bool) :
    ShortOutput (e.stageInput data last).1 := by
  unfold stageInput
  split
  · exact shortOutput_error _
  split
  · exact e.shortOutput_review _
  · exact shortOutput_empty

theorem shortOutput_signTx (e : Engine σ) (f : Frame) : ShortOutput (e.signTx f).1 := by
  unfold signTx
  split
  · split
    · exact shortOutput_error _
    split
    · have hshort := e.short_nextSignature
      split <;> rename_i hnext <;> rw [hnext] at hshort
      · intro b hb
        cases hb
        exact hshort _ rfl
      · exact shortOutput_error _
    · split
      · exact shortOutput_error _
      · apply shortOutput_dropOnError
        unfold stageStart
        split
        · exact shortOutput_error _
        · exact shortOutput_empty
    · split
      · exact shortOutput_error _
      · apply shortOutput_dropOnError
        unfold stageOutput
        split
        · exact shortOutput_error _
        · exact shortOutput_empty
    · split
      · exact shortOutput_error _
      · exact shortOutput_dropOnError (e.shortOutput_stageInput _ _)
  · exact shortOutput_error _

theorem Named.shortOutput_update (h : e.Named) (apdu : Bytes) : ShortOutput (e.update apdu).1 := by
  unfold update
  split
  · exact shortOutput_error _
  rename_i f _
  split
  · split
    · rename_i ins _
      cases ins with
      | getVersion =>
        simp only [command]
        split
        · exact shortOutput_error _
        · exact shortOutput_query (short_answer rfl (Nat.le_add_left 3 257))
      | getAppName =>
        simp only [command]
        split
        · exact shortOutput_error _
        · exact shortOutput_query (short_answer rfl (Nat.le_trans h (Nat.le_add_left 244 16)))
      | getPublicKey => exact e.shortOutput_getPublicKey f
      | signTx => exact e.shortOutput_signTx f
      | signMessage => exact e.shortOutput_signMessage f
    · exact shortOutput_error _
  · split
    · split
      · exact shortOutput_query h.short_appInfo
      · exact shortOutput_error _
    · exact shortOutput_error _

theorem length_replied {r : Except StatusWord Bytes} (h : Short r) :
    2 ≤ (replied r).length ∧ (replied r).length ≤ 262 := by
  cases r with
  | ok b =>
    have hb : b.length ≤ 260 := h b rfl
    simp only [replied, List.length_append, List.length_cons, List.length_nil]
    omega
  | error s => simp [replied]

/-- A reply has a status word and, besides, no more bytes than a frame. -/
theorem Named.length_settle (h : e.Named) (policy : ApprovalPolicy) (apdu : Bytes) :
    2 ≤ (settle policy e apdu).1.length ∧ (settle policy e apdu).1.length ≤ 262 := by
  have hshort := h.shortOutput_update apdu
  unfold settle
  rcases hupdate : e.update apdu with ⟨s | b | _, e'⟩ <;> rw [hupdate] at hshort
  · exact length_replied (short_error s)
  · have hdata : Short (.ok b) := by
      intro b' hb
      cases hb
      exact hshort b rfl
    exact length_replied hdata
  · dsimp only
    split
    · simp
    · exact length_replied e'.short_approve

end HardwareSigner.Engine
