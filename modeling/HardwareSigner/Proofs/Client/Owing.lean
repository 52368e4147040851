import HardwareSigner.Client.Session
import HardwareSigner.Proofs.Client.Delayed
import HardwareSigner.Proofs.Wire.Reader

/-! How many answers a program leaves behind. The balance goes up with each frame and down with each
answer, and a program may wait only while something is owed to it. Every operation of a wallet
starts with nothing owed to it and ends so, unless it is abandoned: then exactly one answer is still
to come. -/

namespace HardwareSigner

namespace Program

variable {α β : Type} {P Q : Nat → α → Prop}

/-- The program waits only for what is owed to it, and what is owed at its end goes with how it
ends. The count is of the frames of its own that have no answer yet. -/
def Owes (P : Nat → α → Prop) : Nat → Program α → Prop
  | n, done a => P n a
  | n, acquire next => Owes P n next
  | n, release next => Owes P n next
  | n, submit _ _ next => Owes P (n + 1) (next .accepted)
  | n, receive _ next =>
    0 < n ∧ (∀ raw, Owes P (n - 1) (next (.answer raw))) ∧ Owes P n (next .silent)

theorem Owes.mono {p : Program α} {n : Nat} (h : Owes P n p) (hPQ : ∀ k a, P k a → Q k a) :
    Owes Q n p := by
  induction p generalizing n with
  | done a => exact hPQ n a h
  | acquire next ih => exact ih h
  | release next ih => exact ih h
  | submit limit apdu next ih => exact ih _ h
  | receive limit next ih =>
    obtain ⟨hn, hanswer, hlate⟩ := h
    exact ⟨hn, fun raw => ih _ (hanswer raw), ih _ hlate⟩

theorem owes_bind {R : Nat → β → Prop} (p : Program α) (f : α → Program β) (n : Nat) :
    Owes R n (p.bind f) ↔ Owes (fun k a => Owes R k (f a)) n p := by
  induction p generalizing n with
  | done a => exact Iff.rfl
  | acquire next ih => exact ih n
  | release next ih => exact ih n
  | submit limit apdu next ih => exact ih _ (n + 1)
  | receive limit next ih =>
    exact and_congr_right fun _ => and_congr (forall_congr' fun raw => ih _ (n - 1)) (ih _ n)

/-- On a link that owes more than this, the rest stays as it is. -/
theorem Owes.run {p : Program α} {l l' : DelayedLink} {a : α} {n k : Nat} (h : Owes P k p)
    (hn : l.sent.length = l.delivered + n + k) (hr : p.run l = (some a, l')) :
    ∃ j, P j a ∧ l'.sent.length = l'.delivered + n + j := by
  induction p generalizing l k with
  | done b =>
    cases hr
    exact ⟨k, h, hn⟩
  | acquire next ih => exact ih h hn hr
  | release next ih => exact ih h hn hr
  | submit limit apdu next ih =>
    refine ih _ h ?_ hr
    change (l.sent ++ [apdu]).length = l.delivered + n + (k + 1)
    rw [List.length_append, List.length_singleton]
    omega
  | receive limit next ih =>
    obtain ⟨hk, hanswer, hlate⟩ := h
    change (if l.receive.1 = .silent ∧ limit = none then (none, l.receive.2)
      else (next l.receive.1).run l.receive.2) = _ at hr
    split at hr
    · cases hr
    cases hreceive : l.receive.1 with
    | answer raw =>
      obtain ⟨-, -, hnext⟩ := DelayedLink.receive_answer hreceive
      rw [hreceive, hnext] at hr
      refine ih _ (hanswer raw) ?_ hr
      change l.sent.length = l.delivered + 1 + n + (k - 1)
      omega
    | failed e => exact absurd hreceive DelayedLink.receive_ne_failed
    | silent =>
      rw [hreceive, DelayedLink.receive_late hreceive] at hr
      refine ih _ hlate ?_ hr
      exact hn

end Program

namespace ClientError

variable {α β : Type}

/-- Whatever is wrong, it is not that the time is over. -/
def Timely (r : Except ClientError α) : Prop := ∀ e, r = .error e → e.isTimeout = false

theorem timely_ok (a : α) : Timely (.ok a) := nofun

theorem timely_error {e : ClientError} (h : e.isTimeout = false) :
    Timely (.error e : Except ClientError α) := by
  rintro _ ⟨⟩
  exact h

theorem Timely.bind {r : Except ClientError α} {f : α → Except ClientError β} (hr : Timely r)
    (hf : ∀ a, Timely (f a)) : Timely (r >>= f) := by
  cases r with
  | error e => exact timely_error (hr e rfl)
  | ok a => exact hf a

/-- What is refused on the way is refused for a reason of its own. -/
theorem Timely.guard {c : Prop} [Decidable c] {e : ClientError} {f : β → Except ClientError α}
    {r : Except ClientError α} (he : e.isTimeout = false) (hr : Timely r) :
    Timely (if c then throw e >>= f else r) := by
  split
  · exact timely_error he
  · exact hr

theorem timely_liftWire (r : Except WireError α) : Timely (liftWire r) := by
  cases r with
  | error e => exact timely_error rfl
  | ok a => exact timely_ok a

theorem timely_checkStatus (code : UInt16) : Timely (checkStatus code) := by
  unfold checkStatus
  split
  · exact timely_ok _
  · exact timely_error rfl
  · exact timely_error rfl

end ClientError

open ClientError

namespace Exchange

variable {α β : Type} {m n o : Nat} {Q : α → Prop} {R : β → Prop}

/-- What is owed where an exchange ends: so much with a value, and with an error one answer if the
error is that there was none in time. -/
def Balance (n : Nat) (Q : α → Prop) : Nat → Except ClientError α → Prop
  | k, .ok a => k = n ∧ Q a
  | k, .error e => k = e.isTimeout.toNat

def Balances (m n : Nat) (Q : α → Prop) (p : Exchange α) : Prop :=
  Program.Owes (Balance n Q) m p.run

abbrev Settles (p : Exchange α) : Prop := Balances 0 0 (fun _ => True) p

theorem balances_pure {a : α} (h : Q a) : Balances n n Q (pure a) := ⟨rfl, h⟩

theorem balances_throw {e : ClientError} (he : e.isTimeout = false) :
    Balances 0 n Q (throw e : Exchange α) := by
  change 0 = e.isTimeout.toNat
  rw [he]
  rfl

theorem Balances.bind {p : Exchange α} {f : α → Exchange β} (hp : Balances m n Q p)
    (hf : ∀ a, Q a → Balances n o R (f a)) : Balances m o R (p >>= f) := by
  refine (Program.owes_bind _ _ _).2 (Program.Owes.mono hp ?_)
  rintro k (e | a) h
  · exact h
  · obtain ⟨rfl, ha⟩ := h
    exact hf a ha

theorem Balances.map {p : Exchange α} (hp : Balances m n Q p) (f : α → β) :
    Balances m n (fun _ => True) (f <$> p) := by
  refine (Program.owes_bind _ _ _).2 (Program.Owes.mono hp ?_)
  rintro k (e | a) h
  · exact h
  · exact ⟨h.1, trivial⟩

theorem settles_lift {r : Except ClientError α} (hr : Timely r) :
    Settles (lift r) := by
  cases r with
  | error e => exact balances_throw (hr e rfl)
  | ok a => exact balances_pure trivial

theorem settles_liftWire (r : Except WireError α) : Settles (liftWire r) :=
  settles_lift (timely_liftWire r)

theorem Balances.releasing {p : Exchange α} (hp : Balances m n Q p) :
    Balances m n Q (releasing p) :=
  (Program.owes_bind _ _ _).2 hp

theorem Balances.holding {p : Exchange α} (hp : Balances m n Q p) : Balances m n Q (holding p) :=
  hp.releasing

theorem Balances.taking {p : Exchange α} (hp : Balances m n Q p) : Balances m n Q (taking p) := by
  refine (Program.owes_bind _ _ _).2 (Program.Owes.mono hp ?_)
  rintro k (e | a) h
  · exact h
  · exact h

theorem balances_submit (limit : Nat) (f : Frame) :
    Balances 0 1 (fun _ => True) (submit limit f) := ⟨rfl, trivial⟩

theorem balances_receive {late : ClientError} (limit : Option Nat) (hlate : late.isTimeout = true) :
    Balances 1 0 (fun _ => True) (receive limit late) := by
  refine ⟨Nat.one_pos, fun raw => ⟨rfl, trivial⟩, ?_⟩
  change 1 = late.isTimeout.toNat
  rw [hlate]
  rfl

theorem timely_answerOf (raw : Bytes) : Timely (answerOf raw) := by
  unfold answerOf
  split
  · exact timely_ok _
  · exact timely_error rfl

theorem settles_answer (limit : Nat) (f : Frame) : Settles (answer limit f) :=
  (balances_submit limit f).bind fun _ _ =>
    (balances_receive (some limit) rfl).bind fun raw _ => settles_lift (timely_answerOf raw)

theorem settles_request (limit : Nat) (f : Frame) : Settles (request limit f) :=
  (settles_answer limit f).bind fun a _ =>
    (settles_lift (timely_checkStatus a.status)).bind fun _ _ => balances_pure trivial

end Exchange

open Exchange

namespace SignatureStream

variable {s : SignatureStream}

theorem timely_check (s : SignatureStream) (r : TxSignature) : Timely (s.check r) := by
  have hkey : Timely (s.keyOf r.inputIndex) := by
    unfold keyOf
    split
    · exact timely_ok _
    · exact timely_error rfl
    · exact timely_error rfl
  refine hkey.bind fun key => ?_
  have hhash : Timely (s.tx.sighash r.inputIndex.toNat key r.scheme) := by
    unfold Transaction.sighash
    split
    · exact timely_error rfl
    · exact timely_ok _
  exact hhash.bind fun hash => .guard rfl (.guard rfl (timely_ok _))

theorem settles_fetch (s : SignatureStream) : Settles s.fetch := by
  unfold fetch
  split
  · exact balances_throw rfl
  · exact (settles_liftWire _).bind fun f _ => (settles_request _ f).bind fun data _ =>
      (settles_liftWire _).bind fun r _ => balances_pure trivial

/-- What is owed after a call, by what it gave and what it left of the sequence. -/
def CallBalance (k : Nat) (r : Option (Except ClientError InputSignature) × SignatureStream) :
    Prop :=
  k = (Ending.isLate r.1).toNat ∧ (Ending.isLate r.1 = true → r.2.finished = true)

theorem callBalance_advance (s : SignatureStream) (r : TxSignature) :
    CallBalance 0 (some (s.advance (.ok r)).1, (s.advance (.ok r)).2) := by
  cases h : s.check r with
  | error e =>
    have hadvance : s.advance (.ok r) = (.error e, { s with finished := true }) := by
      simp only [advance, h]
    have hlate : e.isTimeout = false := s.timely_check r e h
    rw [hadvance]
    exact ⟨(congrArg Bool.toNat hlate).symm, fun _ => rfl⟩
  | ok x =>
    have hadvance : s.advance (.ok r) = (.ok x, s.accept r) := by simp only [advance, h]
    rw [hadvance]
    exact ⟨rfl, nofun⟩

theorem owes_next (s : SignatureStream) : Program.Owes CallBalance 0 s.next := by
  unfold next
  split
  · exact ⟨rfl, nofun⟩
  split
  · exact callBalance_advance _ _
  · refine (Program.owes_bind _ _ _).2 (Program.Owes.mono s.settles_fetch ?_)
    rintro k (e | r) hk
    · exact ⟨hk, fun _ => rfl⟩
    · obtain ⟨rfl, -⟩ := hk
      exact callBalance_advance s r

theorem nextMany_of_finished (h : s.finished = true) (n : Nat) :
    nextMany n s = .done (List.replicate n (none, s.received), s) := by
  induction n with
  | zero => rfl
  | succ n ih =>
    have hnext : s.next = .done (none, s) := by
      unfold next
      rw [if_pos h]
    rw [nextMany, hnext]
    change (nextMany n s).bind _ = _
    rw [ih]
    rfl

/-- Of so many calls at most one is too late, the last one that gives anything. -/
theorem owes_nextMany (n : Nat) (s : SignatureStream) :
    Program.Owes (fun k r => k = (r.1.any fun x => Ending.isLate x.1).toNat) 0 (nextMany n s) := by
  induction n generalizing s with
  | zero => rfl
  | succ n ih =>
    refine (Program.owes_bind _ _ _).2 (Program.Owes.mono s.owes_next ?_)
    rintro k ⟨x, t⟩ ⟨hk, hfinished⟩
    refine (Program.owes_bind _ _ _).2 ?_
    cases hx : Ending.isLate x with
    | true =>
      rw [nextMany_of_finished (hfinished hx)]
      change k = _
      simp [hk, hx]
    | false =>
      simp only [hx] at hk
      subst hk
      refine Program.Owes.mono (ih t) ?_
      rintro k ⟨xs, t'⟩ hxs
      change k = _
      rw [hxs, List.any_cons, hx, Bool.false_or]

theorem settles_gather (fuel : Nat) (s : SignatureStream) : Settles (gather fuel s) := by
  induction fuel generalizing s with
  | zero => exact balances_pure trivial
  | succ fuel ih =>
    refine (Program.owes_bind _ _ _).2 ((Program.owes_bind _ _ _).2 ?_)
    refine Program.Owes.mono s.owes_next ?_
    rintro k ⟨x, t⟩ ⟨hk, -⟩
    rcases x with _ | ⟨e | x⟩
    · exact ⟨hk, trivial⟩
    · exact hk
    · obtain rfl : k = 0 := hk
      exact (ih t).bind fun rest _ => balances_pure trivial

theorem settles_collect (s : SignatureStream) : Settles s.collect := by
  refine Balances.releasing ((s.settles_gather _).bind fun signatures _ => ?_)
  split
  · exact balances_throw rfl
  · exact balances_pure trivial

end SignatureStream

def Completion.Timely {α : Type} (c : Completion α) : Prop :=
  ∀ data, ClientError.Timely (c.finish data)

namespace Completion

theorem timely_decodeKey (data : Bytes) : ClientError.Timely (decodeKey data) := by
  unfold decodeKey
  split
  · exact timely_ok _
  · exact timely_error rfl

theorem timely_message (system : SignatureSystem) (hash : Block 32) (key : Block 33) :
    (message system hash key).Timely := by
  intro data
  refine (timely_liftWire _).bind ?_
  rintro ⟨r, -⟩
  exact .guard rfl (.guard rfl (timely_ok _))

theorem timely_transaction (system : SignatureSystem) (tx : Transaction) (keys : List (Block 33))
    (limit : Nat) : (transaction system tx keys limit).Timely :=
  fun _ => (timely_liftWire _).bind fun _ => timely_ok _

end Completion

namespace PendingApproval

variable {α : Type}

theorem timely_judge {c : Completion α} (hc : c.Timely) (raw : Bytes) :
    ClientError.Timely (judge c raw) := by
  refine (timely_answerOf raw).bind fun a => ?_
  split
  · have hfinish := hc a.data
    cases h : c.finish a.data with
    | error e => exact timely_error (hfinish e h)
    | ok x => exact timely_ok _
  · exact timely_ok _
  · exact timely_error rfl
  · exact timely_error rfl

/-- The wait is for the one answer that is owed. -/
theorem balances_resolve {p : PendingApproval α} (hp : p.completion.Timely) :
    Balances 1 0 (fun _ => True) p.resolve := by
  have hawait : Balances 1 0 (fun _ => True) p.await :=
    (balances_receive p.userTimeout rfl).bind fun raw _ => settles_lift (timely_judge hp raw)
  refine (Program.owes_bind _ _ _).2 (Program.Owes.mono hawait ?_)
  intro k r hk
  split
  · exact hk
  · exact hk

end PendingApproval

namespace Handle

variable (h : Handle)

theorem settles_query {α : Type} [Request α] (r : α) (p1 : UInt8) : Settles (h.query r p1) :=
  (settles_liftWire _).bind fun f _ => (settles_request _ f).holding

/-- A query for an answer of some kind, whatever is then made of the answer. -/
theorem settles_typed {α β : Type} [Request α] (r : α) (p1 : UInt8) (kind : ResponseKind)
    {f : Response → Exchange β} (hf : ∀ x, Settles (f x)) :
    Settles (h.query r p1 >>= fun data => Exchange.liftWire (Response.decode kind data) >>= f) :=
  (h.settles_query r p1).bind fun _ _ => (settles_liftWire _).bind fun x _ => hf x

theorem settles_version : Settles h.version := by
  refine h.settles_typed _ _ _ fun x => ?_
  split
  · exact balances_pure trivial
  · exact balances_throw rfl

theorem settles_appName : Settles h.appName := by
  refine h.settles_typed _ _ _ fun x => ?_
  split
  · exact balances_pure trivial
  · exact balances_throw rfl

theorem settles_appInfo : Settles h.appInfo := by
  refine h.settles_typed _ _ _ fun x => ?_
  split
  · exact balances_pure trivial
  · exact balances_throw rfl

theorem settles_publicKey (path : DerivationPath) : Settles (h.publicKey path) :=
  (h.settles_query _ _).bind fun data _ => settles_lift (Completion.timely_decodeKey data)

theorem settles_exchangeRaw (f : Frame) : Settles (h.exchangeRaw f) :=
  (settles_answer _ f).holding

theorem balances_confirmPublicKey (path : DerivationPath) :
    Balances 0 1 (fun p => p.completion.Timely) (h.confirmPublicKey path) :=
  (settles_liftWire _).bind fun f _ => Balances.taking <|
    (balances_submit _ f).bind fun _ _ => balances_pure Completion.timely_decodeKey

theorem balances_signMessage (m : PersonalMessage) :
    Balances 0 1 (fun p => p.completion.Timely) (h.signMessage m) :=
  (h.settles_publicKey m.path).bind fun _ _ => (settles_liftWire _).bind fun f _ =>
    Balances.taking <| (balances_submit _ f).bind fun _ _ =>
      balances_pure (Completion.timely_message _ _ _)

theorem settles_inputKeys (inputs : List TransactionInput) : Settles (h.inputKeys inputs) := by
  induction inputs with
  | nil => exact balances_pure trivial
  | cons i rest ih =>
    have hrest (key : Block 33) :
        Settles (h.inputKeys rest >>= fun keys => pure (key :: keys)) :=
      ih.bind fun _ _ => balances_pure trivial
    rw [inputKeys]
    cases i.publicKey with
    | some key => exact hrest key
    | none => exact ((h.settles_publicKey i.path).map _).bind fun key _ => hrest key

/-- Every frame but the last one is answered on the way. -/
theorem balances_sendChunks (cs : List (Except WireError Chunk)) :
    Balances 0 1 (fun _ => True) (h.sendChunks cs) := by
  induction cs with
  | nil => exact balances_throw rfl
  | cons c rest ih =>
    refine (settles_liftWire c).bind fun c _ => ?_
    split
    · exact balances_submit _ _
    · exact (settles_request _ _).bind fun _ _ => ih

theorem balances_signTransaction (tx : Transaction) :
    Balances 0 1 (fun p => p.completion.Timely) (h.signTransaction tx) :=
  (h.settles_inputKeys tx.inputs).bind fun _ _ => Balances.taking <|
    (h.balances_sendChunks tx.plan).bind fun _ _ =>
      balances_pure (Completion.timely_transaction _ _ _ _)

end Handle

namespace Ending

/-- What is owed where an operation ends: one answer, if it was abandoned. -/
def Balance (n : Nat) (e : Ending) : Prop := n = e.abandoned.toNat

end Ending

namespace Exchange

variable {α : Type}

theorem owes_operation {p : Exchange α} {f : α → Ending} (hp : Settles p)
    (hf : ∀ a, (f a).abandoned = false) : Program.Owes Ending.Balance 0 (p.operation f) := by
  refine (Program.owes_bind _ _ _).2 (Program.Owes.mono hp ?_)
  rintro k (e | a) hk
  · exact hk
  · obtain ⟨rfl, -⟩ := hk
    exact (congrArg Bool.toNat (hf a)).symm

/-- A request that is not waited for leaves its answer behind. -/
theorem owes_pendingOperation {p : Exchange (PendingApproval α)}
    {use : Option (α → Program Ending)}
    (hp : Balances 0 1 (fun pending => pending.completion.Timely) p)
    (huse : ∀ f ∈ use, ∀ a, Program.Owes Ending.Balance 0 (f a)) :
    Program.Owes Ending.Balance 0 (p.pendingOperation use) := by
  refine (Program.owes_bind _ _ _).2 (Program.Owes.mono hp ?_)
  rintro k (e | pending) hk
  · exact hk
  obtain ⟨rfl, htimely⟩ := hk
  cases use with
  | none => exact rfl
  | some f =>
    refine (Program.owes_bind _ _ _).2
      (Program.Owes.mono (PendingApproval.balances_resolve htimely) ?_)
    rintro k (e | a | _) hk
    · exact hk
    · obtain ⟨rfl, -⟩ := hk
      exact huse f rfl a
    · exact hk.1

/-- The same where the value of the request is all that comes of it. -/
theorem owes_pendingOperation_value {p : Exchange (PendingApproval α)} {f : α → Ending}
    (hp : Balances 0 1 (fun pending => pending.completion.Timely) p)
    (hf : ∀ a, (f a).abandoned = false) (wait : Bool) : Program.Owes Ending.Balance 0
      (p.pendingOperation (if wait then some fun a => .done (f a) else none)) := by
  refine owes_pendingOperation hp ?_
  intro g hg a
  cases wait with
  | false => cases hg
  | true =>
    obtain rfl := Option.some.inj hg
    exact (congrArg Bool.toNat (hf a)).symm

end Exchange

theorem SignatureStream.owes_use (s : SignatureStream) (use : SequenceUse) :
    Program.Owes Ending.Balance 0 (s.use use) := by
  cases use with
  | calls n =>
    refine (Program.owes_bind _ _ _).2 (Program.Owes.mono (owes_nextMany n s) ?_)
    rintro k ⟨xs, t⟩ hk
    change k = ((xs.map Prod.fst).any Ending.isLate).toNat
    rw [hk, List.any_map]
    rfl
  | collect => exact owes_operation s.settles_collect fun _ => rfl

/-- An operation leaves one answer behind if it is abandoned, and none else. -/
theorem Handle.owes_perform (h : Handle) (op : Operation) :
    Program.Owes Ending.Balance 0 (h.perform op) := by
  cases op with
  | version => exact owes_operation h.settles_version fun _ => rfl
  | appName => exact owes_operation h.settles_appName fun _ => rfl
  | appInfo => exact owes_operation h.settles_appInfo fun _ => rfl
  | publicKey path => exact owes_operation (h.settles_publicKey path) fun _ => rfl
  | exchangeRaw f => exact owes_operation (h.settles_exchangeRaw f) fun _ => rfl
  | confirmPublicKey path wait =>
    exact owes_pendingOperation_value (h.balances_confirmPublicKey path) (fun _ => rfl) wait
  | signMessage m wait =>
    exact owes_pendingOperation_value (h.balances_signMessage m) (fun _ => rfl) wait
  | signTransaction tx wait =>
    refine owes_pendingOperation (h.balances_signTransaction tx) fun f hf s => ?_
    obtain ⟨use, -, rfl⟩ := Option.map_eq_some_iff.1 hf
    exact s.owes_use use

end HardwareSigner
