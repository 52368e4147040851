import Mathlib.Data.List.Induction
import Mathlib.Data.List.Nodup
import HardwareSigner.Proofs.Device.Invariant

/-! Signatures for a transaction leave a device only after its approval, and each of them once. The
queue that an approval sets is handed out from its head, one record for each request; whatever else
ends the exchange ends the handing out. -/

namespace HardwareSigner

def fetchAnswers (answered : List (Event × Except StatusWord Output)) :
    List (Except StatusWord Output) :=
  (answered.filter fun p => p.1.fetches).map fun p => p.2

theorem fetchAnswers_cons (p : Event × Except StatusWord Output)
    (answered : List (Event × Except StatusWord Output)) :
    fetchAnswers (p :: answered) =
      if p.1.fetches then p.2 :: fetchAnswers answered else fetchAnswers answered := by
  unfold fetchAnswers
  cases hf : p.1.fetches <;> simp [hf]

namespace SignatureOrder

/-- The place among `n` inputs of the one whose signature is handed out after `j` others. -/
def place : SignatureOrder → Nat → Nat → Nat
  | declared, _, j => j
  | reversed, n, j => n - 1 - j

variable {α : Type}

@[simp] theorem length_arrange (o : SignatureOrder) (l : List α) :
    (o.arrange l).length = l.length := by
  cases o with
  | declared => rfl
  | reversed => exact List.length_reverse

theorem getElem?_arrange (o : SignatureOrder) {l : List α} {j : Nat} (h : j < l.length) :
    (o.arrange l)[j]? = l[o.place l.length j]? := by
  cases o with
  | declared => rfl
  | reversed => exact List.getElem?_reverse h

theorem place_lt (o : SignatureOrder) {n j : Nat} (h : j < n) : o.place n j < n := by
  cases o with
  | declared => exact h
  | reversed =>
    change n - 1 - j < n
    omega

theorem place_inj (o : SignatureOrder) {n i j : Nat} (hi : i < n) (hj : j < n)
    (h : o.place n i = o.place n j) : i = j := by
  cases o with
  | declared => exact h
  | reversed =>
    change n - 1 - i = n - 1 - j at h
    omega

end SignatureOrder

namespace TxSignature

/-- The records of a queue as they are handed out: all but the last say that more follow. -/
def handOut : List TxSignature → List TxSignature
  | [] => []
  | s :: rest => { s with hasMore := !rest.isEmpty } :: handOut rest

@[simp] theorem length_handOut (queue : List TxSignature) :
    (handOut queue).length = queue.length := by
  induction queue with
  | nil => rfl
  | cons s rest ih => exact congrArg Nat.succ ih

theorem getElem?_handOut (queue : List TxSignature) (j : Nat) :
    (handOut queue)[j]? =
      queue[j]?.map fun s => { s with hasMore := decide (j + 1 < queue.length) } := by
  induction queue generalizing j with
  | nil => rfl
  | cons s rest ih =>
    cases j with
    | zero => cases rest <;> simp [handOut]
    | succ j => simpa [handOut] using ih j

/-- What so many requests are answered from these records: refusals once there are none left. -/
def answers (records : List TxSignature) (n : Nat) : List (Except StatusWord Output) :=
  (records.take n).map (fun r => .ok (.data r.layout)) ++
    List.replicate (n - records.length) (.error .badState)

theorem answers_cons (r : TxSignature) (records : List TxSignature) (n : Nat) :
    answers (r :: records) (n + 1) = .ok (.data r.layout) :: answers records n := by
  simp [answers]

theorem answers_nil (n : Nat) : answers [] (n + 1) = .error .badState :: answers [] n := by
  simp [answers, List.replicate_succ]

/-- What a device owes for an approved transaction: a record for each input, in the order of its
configuration, each with the place of its input and a signature by that input's own key. -/
structure Owed {σ : Type} [KeySource σ] (tx : StagedTx) (system : SignatureSystem) (keys : σ)
    (order : SignatureOrder) (records : List TxSignature) : Prop where
  length_eq : records.length = tx.inputs.length
  inputIndex : ∀ (j : Nat) (r : TxSignature), records[j]? = some r →
    r.inputIndex.toNat = order.place tx.inputs.length j
  hasMore : ∀ (j : Nat) (r : TxSignature), records[j]? = some r →
    (r.hasMore = true ↔ j + 1 < tx.inputs.length)
  signs : ∀ (j : Nat) (r : TxSignature), records[j]? = some r →
    r.Signs tx system keys (order.place tx.inputs.length j)

theorem Owed.nodup {σ : Type} [KeySource σ] {tx : StagedTx} {system : SignatureSystem} {keys : σ}
    {order : SignatureOrder} {records : List TxSignature}
    (h : Owed tx system keys order records) :
    (records.map fun r => r.inputIndex.toNat).Nodup := by
  rw [List.nodup_iff_getElem?_ne_getElem?]
  intro i j hij hj
  rw [List.length_map, h.length_eq] at hj
  have hplace : ∀ k, k < tx.inputs.length →
      (records.map fun r => r.inputIndex.toNat)[k]? = some (order.place tx.inputs.length k) := by
    intro k hk
    obtain ⟨r, hr⟩ : ∃ r, records[k]? = some r :=
      ⟨_, List.getElem?_eq_getElem (h.length_eq ▸ hk)⟩
    rw [List.getElem?_map, hr, Option.map_some, h.inputIndex k r hr]
  rw [hplace i (by omega), hplace j hj]
  intro heq
  have := order.place_inj (by omega) hj (Option.some.inj heq)
  omega

end TxSignature

namespace Engine

variable {σ : Type} [KeySource σ] {system : SignatureSystem} {config : DeviceConfig} {keys : σ}
  {e e' : Engine σ} {tx : StagedTx} {ev : Event} {r : Except StatusWord Output}

omit [KeySource σ] in
theorem remaining_eq_idle {queue : List TxSignature} :
    Activity.remaining tx queue = .idle ↔ queue = [] := by
  cases queue with
  | nil => exact ⟨fun _ => rfl, fun _ => rfl⟩
  | cons s rest => exact ⟨nofun, nofun⟩

theorem remaining_eq_signing {tx' : StagedTx} {queue queue' : List TxSignature}
    (h : Activity.remaining tx queue = .signing tx' queue') : tx = tx' ∧ queue = queue' := by
  cases queue with
  | nil => cases h
  | cons s rest =>
    cases h
    exact ⟨rfl, rfl⟩

theorem step_approval_ok {b : Bytes} :
    (e.step .approval).1 = .ok (.data b) ↔ e.approve.1 = .ok b := by
  change e.approve.1.map Output.data = .ok (.data b) ↔ _
  cases e.approve.1 with
  | error s => exact ⟨nofun, nofun⟩
  | ok b' =>
    constructor
    · rintro ⟨⟩
      rfl
    · rintro ⟨⟩
      rfl

theorem step_of_fetches (e : Engine σ) (h : ev.fetches = true) :
    e.step ev = (e.nextSignature.1.map .data, e.nextSignature.2) := by
  cases ev with
  | approval => cases h
  | denial => cases h
  | frame apdu =>
    simp only [Event.fetches] at h
    split at h
    · cases h
    rename_i f hread
    simp only [Bool.and_eq_true, decide_eq_true_eq] at h
    obtain ⟨⟨⟨hcla, hins⟩, hphase⟩, hcont⟩ := h
    obtain ⟨cont, hcont⟩ := Option.isSome_iff_exists.1 hcont
    simp only [step, update, hread, hcla, hins, if_true, command, signTx, hphase, hcont]
    rcases e.nextSignature with ⟨s | b, e'⟩ <;> rfl

theorem Change.signing_of_ok {data : Bytes} {out : Output} (h : e.Change ev r e')
    (hx : ev.exchange? = some (.nextSignature, data)) (hr : r = .ok out) :
    ∃ tx queue, e.activity = .signing tx queue := by
  cases h with
  | @fetched apdu data tx s rest hx' hf hact => exact ⟨tx, s :: rest, hact⟩
  | told hx' hask => cases hx'.symm.trans hx
  | keyShown hx' hpath => cases hx'.symm.trans hx
  | messageShown hx' hparse hhash => cases hx'.symm.trans hx
  | started hx' hstart => cases hx'.symm.trans hx
  | outputTaken hx' hact hpush => cases hx'.symm.trans hx
  | inputTaken hx' hact hpush => cases hx'.symm.trans hx
  | completed hx' hact hpush hfee hchange hask => cases hx'.symm.trans hx
  | denied hpending => cases hx
  | confirmed hno hask => cases hx
  | released hact hsign hqueue => cases hx
  | stalled hact hsign => cases hx
  | refused hask => cases hr
  | dropped hask => cases hr

/-- A device that hands out signatures was just told to, or did so before and only a request for
the next one can have changed what it is in the middle of. -/
theorem Change.before_signing {queue : List TxSignature} (h : e.Change ev r e')
    (hs : e'.Sound system config keys) (hact : e'.activity = .signing tx queue) :
    ((∃ queue', e.activity = .signing tx queue') ∧
        (ev.fetches = false → e'.activity = e.activity)) ∨
      ev = .approval ∧ e.activity = .txPending tx ∧ ∃ b, r = .ok (.data b) := by
  have hsound := hs.activity
  cases h with
  | told hx hask => exact .inl ⟨⟨queue, hask.activity ▸ hact⟩, fun _ => hask.activity⟩
  | refused hask => exact .inl ⟨⟨queue, hask.activity ▸ hact⟩, fun _ => hask.activity⟩
  | @fetched apdu data tx' s rest hx hf hact' =>
    obtain rfl := (remaining_eq_signing hact).1
    refine .inl ⟨⟨s :: rest, hact'⟩, ?_⟩
    intro hno
    cases hf.symm.trans hno
  | @released tx' signatures rest s e₁ hact' hsign hqueue =>
    obtain rfl := (remaining_eq_signing hact).1
    exact .inr ⟨rfl, hact', _, rfl⟩
  | stalled hact' hsign => exact absurd rfl hsound.2
  | dropped hask => cases hact
  | denied hpending => cases hact
  | confirmed hno hask => cases hact
  | keyShown hx hpath => cases hact
  | messageShown hx hparse hhash => cases hact
  | started hx hstart => cases hact
  | outputTaken hx hact' hpush => cases hact
  | inputTaken hx hact' hpush => cases hact
  | completed hx hact' hpush hfee hchange hask => cases hact

/-- Nothing but requests for signatures changes what the device is in the middle of. -/
def Undisturbed (e : Engine σ) : List Event → Prop
  | [] => True
  | ev :: evs =>
    (ev.fetches = false → (e.step ev).2.activity = e.activity) ∧ (e.step ev).2.Undisturbed evs

theorem Undisturbed.concat {evs : List Event} (hu : e.Undisturbed evs)
    (hev : ev.fetches = false → ((e.after evs).step ev).2.activity = (e.after evs).activity) :
    e.Undisturbed (evs ++ [ev]) := by
  induction evs generalizing e with
  | nil => exact ⟨hev, trivial⟩
  | cons ev' evs ih => exact ⟨hu.1, ih hu.2 hev⟩

/-- The transaction was approved in this run, and nothing ended its exchange since. -/
def ApprovedSince (e : Engine σ) (evs : List Event) (tx : StagedTx) : Prop :=
  ∃ (pre post : List Event) (b : Bytes), evs = pre ++ .approval :: post ∧
    (e.after pre).activity = .txPending tx ∧ (e.after pre).approve.1 = .ok b ∧
    (e.after pre).approve.2.Undisturbed post ∧
    ∀ mid, mid <+: post → ∃ queue, (e.after (pre ++ .approval :: mid)).activity = .signing tx queue

theorem approvedSince (hs : e.Sound system config keys)
    (hstart : ∀ tx queue, e.activity ≠ .signing tx queue) (evs : List Event)
    {queue : List TxSignature} (hact : (e.after evs).activity = .signing tx queue) :
    e.ApprovedSince evs tx := by
  induction evs using List.reverseRecOn generalizing queue with
  | nil => exact absurd hact (hstart tx queue)
  | append_singleton evs ev ih =>
    rw [after_append] at hact
    have hchange := (e.after evs).step_change ev
    rcases hchange.before_signing ((hs.after evs).step ev) hact with
      ⟨⟨queue', hprev⟩, hquiet⟩ | ⟨rfl, hprev, b, hb⟩
    · obtain ⟨pre, post, b, rfl, hpending, happroved, hu, hmid⟩ := ih hprev
      rw [after_append, after_cons] at hquiet
      refine ⟨pre, post ++ [ev], b, by simp, hpending, happroved, hu.concat hquiet, ?_⟩
      intro mid hpre
      rcases List.prefix_concat_iff.1 hpre with rfl | hpre
      · refine ⟨queue, ?_⟩
        rw [← hact, ← after_append]
        simp
      · exact hmid mid hpre
    · refine ⟨evs, [], b, rfl, hprev, step_approval_ok.1 hb, trivial, ?_⟩
      intro mid hpre
      obtain rfl := List.prefix_nil.1 hpre
      exact ⟨queue, by rw [after_append]; exact hact⟩

end Engine

namespace Engine

variable {σ : Type} {e : Engine σ} {tx : StagedTx}

theorem nextSignature_nil (hact : e.activity = .remaining tx []) :
    e.nextSignature = (.error .badState, e) := by
  unfold nextSignature
  rw [hact]
  rfl

theorem nextSignature_cons {s : TxSignature} {rest : List TxSignature}
    (hact : e.activity = .remaining tx (s :: rest)) :
    e.nextSignature = (.ok { s with hasMore := !rest.isEmpty }.layout,
      { e with activity := .remaining tx rest }) := by
  unfold nextSignature
  rw [hact]
  cases rest <;> rfl

variable [KeySource σ] {system : SignatureSystem} {config : DeviceConfig} {keys : σ} {e' : Engine σ}

theorem fetchAnswers_remaining {evs : List Event} {queue : List TxSignature}
    (hact : e.activity = .remaining tx queue) (hu : e.Undisturbed evs) :
    fetchAnswers (e.trace evs) =
        TxSignature.answers (TxSignature.handOut queue) (evs.countP Event.fetches) ∧
      (e.after evs).activity = .remaining tx (queue.drop (evs.countP Event.fetches)) := by
  induction evs generalizing e queue with
  | nil => exact ⟨by simp [fetchAnswers, trace, TxSignature.answers], hact⟩
  | cons ev evs ih =>
    obtain ⟨hev, hu⟩ := hu
    cases hf : ev.fetches with
    | false =>
      obtain ⟨hanswers, hafter⟩ := ih ((hev hf).trans hact) hu
      rw [List.countP_cons_of_neg (by simp [hf])]
      refine ⟨?_, hafter⟩
      rw [← hanswers, trace, fetchAnswers_cons, hf]
      rfl
    | true =>
      have hstep := e.step_of_fetches hf
      rw [List.countP_cons_of_pos hf, trace, fetchAnswers_cons, if_pos hf, after_cons]
      cases queue with
      | nil =>
        rw [nextSignature_nil hact] at hstep
        rw [hstep] at hu ⊢
        obtain ⟨hanswers, hafter⟩ := ih hact hu
        rw [List.drop_nil] at hafter
        refine ⟨?_, hafter⟩
        rw [hanswers]
        exact (TxSignature.answers_nil _).symm
      | cons s rest =>
        rw [nextSignature_cons hact] at hstep
        rw [hstep] at hu ⊢
        obtain ⟨hanswers, hafter⟩ := ih rfl hu
        refine ⟨?_, hafter⟩
        rw [hanswers]
        exact (TxSignature.answers_cons _ _ _).symm

/-- An approval of a transaction signs for every input and hands out the first record. -/
theorem Change.released_of_ok {out : Output} (h : e.Change .approval (.ok out) e')
    (hact : e.activity = .txPending tx) :
    ∃ signatures s rest e₁, e.signInputs tx 0 tx.inputs = (.ok signatures, e₁) ∧
      e.config.order.arrange signatures = s :: rest ∧
      out = .data { s with hasMore := !rest.isEmpty }.layout ∧
      e'.activity = .remaining tx rest := by
  generalize hr : Except.ok out = r at h
  cases h with
  | released hact' hsign hqueue =>
    obtain rfl := Activity.txPending.inj (hact.symm.trans hact')
    exact ⟨_, _, _, _, hsign, hqueue, Except.ok.inj hr, rfl⟩
  | confirmed hno hask => exact absurd hact (hno tx)
  | refused hask => cases hr
  | dropped hask => cases hr
  | stalled hact' hsign => cases hr

/-- Once a transaction with an input is signed for, there is something to hand out. -/
theorem arrange_signInputs (o : SignatureOrder) {signatures : List TxSignature}
    (hsign : e.signInputs tx 0 tx.inputs = (.ok signatures, e')) (hin : tx.inputs ≠ []) :
    ∃ s rest, o.arrange signatures = s :: rest := by
  refine List.exists_cons_of_ne_nil (List.length_pos_iff.1 ?_)
  rw [SignatureOrder.length_arrange, (signInputs_ok hsign (by simp)).1]
  exact List.length_pos_iff.2 hin

/-- With a source that has a key for the address of each input an approval goes through. -/
theorem approve_of_keys (hs : e.Sound system config keys) (hact : e.activity = .txPending tx)
    (hkeys : ∀ source, KeySource.Asked keys source → ∀ i ∈ tx.inputs,
      ∃ k, KeySource.addressKey source i.addressType i.addressIndex = some k) :
    ∃ b, e.approve.1 = .ok b := by
  have hreviewed := hs.activity
  rw [hact] at hreviewed
  have hall : 0 + tx.inputs.length ≤ tx.inputs.length := by omega
  obtain ⟨signatures, e', hsign⟩ :=
    e.signInputs_complete (fun source hasked => hkeys source (hs.asked.trans hasked)) hall
  obtain ⟨s, rest, hqueue⟩ := arrange_signInputs e'.config.order hsign hreviewed.inputs_ne
  unfold approve
  rw [hact]
  change ∃ b, (e.approveTx tx).1 = .ok b
  rw [approveTx_eq hsign, hqueue]
  exact ⟨_, rfl⟩

theorem approve_complete (hs : e.Sound system config keys) (hact : e.activity = .txPending tx)
    (hkeys : ∀ (s : σ) (path : List UInt32), ∃ k, (KeySource.derive s path).1 = some k) :
    ∃ b, e.approve.1 = .ok b :=
  approve_of_keys hs hact fun source _ _ _ => hkeys source _

theorem owed_handOut (hs : e.Sound system config keys) (hact : e.activity = .txPending tx)
    {signatures : List TxSignature} (hsign : e.signInputs tx 0 tx.inputs = (.ok signatures, e')) :
    TxSignature.Owed tx system keys config.order
      (TxSignature.handOut (config.order.arrange signatures)) := by
  have hreviewed : tx.Reviewed system keys := by
    have := hs.activity
    rwa [hact] at this
  have hfew : tx.inputs.length ≤ 15 := hreviewed.inputs_eq ▸ hreviewed.header.inputs.2
  obtain ⟨hlen, hsigns⟩ := signInputs_ok hsign (by simp)
  have hcount : (config.order.arrange signatures).length = tx.inputs.length := by
    rw [SignatureOrder.length_arrange, hlen]
  -- a record is a signature of the queue but for the mark that more follow
  have hrecord : ∀ (j : Nat) (r : TxSignature),
      (TxSignature.handOut (config.order.arrange signatures))[j]? = some r →
      (r.hasMore = true ↔ j + 1 < tx.inputs.length) ∧ config.order.place tx.inputs.length j < 15 ∧
        r.Signs tx system keys (config.order.place tx.inputs.length j) := by
    intro j r hr
    rw [TxSignature.getElem?_handOut, hcount] at hr
    obtain ⟨s, hget, rfl⟩ := Option.map_eq_some_iff.1 hr
    have hj : j < signatures.length := by
      have := (List.getElem?_eq_some_iff.1 hget).1
      rwa [SignatureOrder.length_arrange] at this
    rw [SignatureOrder.getElem?_arrange _ hj, hlen] at hget
    have hplace := config.order.place_lt (hlen ▸ hj)
    obtain ⟨hindex, hscheme, i, source, k, hi, hasked, hkey⟩ := hsigns _ s hget
    rw [Nat.zero_add] at hindex hi hkey
    rw [hs.system_eq] at hkey
    refine ⟨by simp, by omega, hindex, hscheme, i, source, k, hi, hs.asked.trans hasked, hkey⟩
  refine ⟨by rw [TxSignature.length_handOut, hcount], ?_, ?_, ?_⟩
  · intro j r hr
    obtain ⟨-, hplace, hsigned⟩ := hrecord j r hr
    rw [hsigned.inputIndex]
    simp
    omega
  · exact fun j r hr => (hrecord j r hr).1
  · exact fun j r hr => (hrecord j r hr).2.2

theorem approve_releases (hs : e.Sound system config keys) (hact : e.activity = .txPending tx)
    {b : Bytes} (hb : e.approve.1 = .ok b) :
    ∃ s rest, TxSignature.Owed tx system keys config.order (TxSignature.handOut (s :: rest)) ∧
      b = { s with hasMore := !rest.isEmpty }.layout ∧
      e.approve.2.activity = .remaining tx rest := by
  have hchange := e.step_change .approval
  rw [step_approval_ok.2 hb] at hchange
  obtain ⟨signatures, s, rest, e₁, hsign, hqueue, hout, hafter⟩ := hchange.released_of_ok hact
  have howed := owed_handOut hs hact hsign
  rw [hs.config_eq] at hqueue
  rw [hqueue] at howed
  exact ⟨s, rest, howed, Output.data.inj hout, hafter⟩

end Engine

/-- Neither an approval nor requests for signatures have anything to act on. -/
def Activity.Unshown (a : Activity) : Prop := a = .idle ∨ ∃ tx, a = .staging tx

namespace Engine

variable {σ : Type} [KeySource σ] {system : SignatureSystem} {config : DeviceConfig} {keys : σ}
  {e e' : Engine σ} {tx : StagedTx} {ev : Event} {r : Except StatusWord Output}

theorem Change.unshown (h : e.Change ev r e') (hu : e.activity.Unshown) (hr : r ≠ .ok .pending) :
    e'.activity.Unshown := by
  cases h with
  | told hx hask => exact hask.activity ▸ hu
  | refused hask => exact hask.activity ▸ hu
  | dropped hask => exact .inl rfl
  | denied hpending => exact .inl rfl
  | confirmed hno hask => exact .inl rfl
  | started hx hstart => exact .inr ⟨_, rfl⟩
  | outputTaken hx hact hpush => exact .inr ⟨_, rfl⟩
  | inputTaken hx hact hpush => exact .inr ⟨_, rfl⟩
  | keyShown hx hpath => exact absurd rfl hr
  | messageShown hx hparse hhash => exact absurd rfl hr
  | completed hx hact hpush hfee hchange hask => exact absurd rfl hr
  | fetched hx hf hact => rcases hu with hu | ⟨tx, hu⟩ <;> cases hu.symm.trans hact
  | released hact hsign hqueue => rcases hu with hu | ⟨tx, hu⟩ <;> cases hu.symm.trans hact
  | stalled hact hsign => rcases hu with hu | ⟨tx, hu⟩ <;> cases hu.symm.trans hact

theorem step_unshown (hu : e.activity.Unshown) (hev : ev = .approval ∨ ev.fetches = true) :
    (e.step ev).1 = .error .badState := by
  rcases hev with rfl | hf
  · change e.approve.1.map Output.data = .error .badState
    unfold approve
    rcases hu with hu | ⟨tx, hu⟩ <;> rw [hu] <;> rfl
  · rw [e.step_of_fetches hf]
    unfold nextSignature
    rcases hu with hu | ⟨tx, hu⟩ <;> rw [hu] <;> rfl

/-- Approvals and requests for signatures are refused until an exchange is complete. -/
def RefusesUntilPending (e : Engine σ) : Prop :=
  ∀ evs : List Event, (∀ p ∈ e.trace evs, p.2 ≠ .ok .pending) →
    ∀ p ∈ e.trace evs, p.1 = .approval ∨ p.1.fetches = true → p.2 = .error .badState

theorem refusesUntilPending (hu : e.activity.Unshown) : e.RefusesUntilPending := by
  intro evs hno
  induction evs generalizing e with
  | nil => exact fun p hp => absurd hp List.not_mem_nil
  | cons ev evs ih =>
    intro p hp
    rcases List.mem_cons.1 hp with rfl | hp
    · exact step_unshown hu
    · have hnext := (e.step_change ev).unshown hu (hno _ List.mem_cons_self)
      exact ih hnext (fun q hq => hno q (List.mem_cons_of_mem _ hq)) p hp

/-- A request for a signature is answered with data only since an approval of its transaction that
nothing has ended. From such an approval on, as long as nothing but requests for signatures changes
the activity, the answers are the records owed for the transaction, one for each input; then the
device is idle and refuses approvals and requests until another exchange is complete. -/
theorem released_only_by_approval (system : SignatureSystem) (config : DeviceConfig) (keys : σ) :
    (∀ (evs : List Event) (ev : Event) (data : Bytes) (out : Output),
      ev.exchange? = some (.nextSignature, data) →
      (((new system config keys).after evs).step ev).1 = .ok out →
      ∃ tx, (new system config keys).ApprovedSince evs tx) ∧
    ∀ (evs : List Event) (e : Engine σ) (tx : StagedTx) (b : Bytes),
      e = (new system config keys).after evs → e.activity = .txPending tx →
      e.approve.1 = .ok b →
      ∃ records, TxSignature.Owed tx system keys config.order records ∧
        ∀ more : List Event, e.approve.2.Undisturbed more →
          .ok (.data b) :: fetchAnswers (e.approve.2.trace more) =
              TxSignature.answers records (more.countP Event.fetches + 1) ∧
            ((e.approve.2.after more).activity = .idle ↔
              tx.inputs.length ≤ more.countP Event.fetches + 1) ∧
            (tx.inputs.length ≤ more.countP Event.fetches + 1 →
              (e.approve.2.after more).RefusesUntilPending) := by
  constructor
  · intro evs ev data out hx hout
    obtain ⟨tx, queue, hact⟩ := (step_change _ ev).signing_of_ok hx hout
    refine ⟨tx, approvedSince (sound_new system config keys) ?_ evs hact⟩
    exact fun tx queue => nofun
  · intro evs e tx b he hact happrove
    have hs : e.Sound system config keys := he ▸ sound_after system config keys evs
    have hchange := e.step_change .approval
    rw [step_approval_ok.2 happrove] at hchange
    obtain ⟨signatures, s, rest, e₁, hsign, hqueue, hb, hafter⟩ := hchange.released_of_ok hact
    change e.approve.2.activity = _ at hafter
    have howed := owed_handOut hs hact hsign
    rw [hs.config_eq] at hqueue
    rw [hqueue] at howed
    refine ⟨_, howed, ?_⟩
    intro more hmore
    obtain ⟨hanswers, hidle⟩ := fetchAnswers_remaining hafter hmore
    have hcount : rest.length + 1 = tx.inputs.length := by
      rw [← howed.length_eq]
      simp
    have hiff : (e.approve.2.after more).activity = .idle ↔
        tx.inputs.length ≤ more.countP Event.fetches + 1 := by
      rw [hidle, remaining_eq_idle, List.drop_eq_nil_iff, ← hcount]
      omega
    refine ⟨?_, hiff, ?_⟩
    · rw [hb]
      exact hanswers ▸ (TxSignature.answers_cons _ _ _).symm
    · intro hall
      exact refusesUntilPending (.inl (hiff.2 hall))

end Engine

namespace ReleaseExample

/-- A source with one key for every path. -/
structure OneKey where
  key : DerivedKey

instance : KeySource OneKey where
  derive s _ := (some s.key, s)

/-- Keys and signatures that are all the same; nothing is said about what they are worth. -/
def system : SignatureSystem where
  publicKey _ := Block.zero 65
  sign _ _ := Block.zero 64
  verifySchnorr _ _ _ := true
  verifyEcdsa _ _ _ := false

def config : DeviceConfig := { order := .reversed }

def keys : OneKey := ⟨⟨⟨1, by decide, by decide⟩, Block.zero 32⟩⟩

def events : List Event :=
  [.frame [0xe0, 0x06, 0, 0x80, 4, 0, 0, 1, 2],
   .frame [0xe0, 0x06, 1, 0x80, 9, 0, 0, 0, 0, 0, 0, 0, 3, 0],
   .frame ([0xe0, 0x06, 2, 0x80, 49] ++ List.replicate 7 0 ++ [2] ++ List.replicate 41 0),
   .frame ([0xe0, 0x06, 2, 0, 49] ++ List.replicate 7 0 ++ [1] ++ List.replicate 41 0)]

def staged : StagedTx :=
  ⟨⟨0, 1, 2, none⟩, [⟨3, []⟩], [⟨2, Block.zero 32, 0, 0, 0⟩, ⟨1, Block.zero 32, 0, 0, 0⟩]⟩

def device : Engine OneKey := (Engine.new system config keys).after events

def fetch : Event := .frame [0xe0, 0x06, 3, 0, 0]

end ReleaseExample

open ReleaseExample in
theorem released_only_by_approval_reversed : device.activity = .txPending staged ∧
    ∃ b records, device.approve.1 = .ok b ∧ TxSignature.Owed staged system keys .reversed records ∧
      .ok (.data b) :: fetchAnswers (device.approve.2.trace [fetch, fetch]) =
        TxSignature.answers records 3 ∧
      (device.approve.2.after [fetch, fetch]).activity = .idle := by
  have hact : device.activity = .txPending staged := by decide
  have hsound := Engine.sound_after system config keys events
  obtain ⟨b, hb⟩ := Engine.approve_complete hsound hact fun s _ => ⟨s.key, rfl⟩
  obtain ⟨records, howed, hmore⟩ :=
    (Engine.released_only_by_approval system config keys).2 events device staged b rfl hact hb
  obtain ⟨hanswers, hidle, -⟩ := hmore [fetch, fetch] ⟨nofun, nofun, trivial⟩
  exact ⟨hact, b, records, hb, howed, hanswers, hidle.2 (by decide)⟩

end HardwareSigner
