import HardwareSigner.Client.Tasks
import HardwareSigner.Proofs.Transaction.Chunks

/-! What the calls of a task do with the link. A program is followed step by step, for every way in
which the link may react: a query takes the link and gives it back, and a flow that needs the
operator has it from its first frame to the step that ends the flow, through whatever is left open
between calls. -/

namespace HardwareSigner

namespace ClientCall

/-- The frame that a flow begins with. -/
def openingFrame : ClientCall → Option Bytes
  | confirmPublicKey path =>
    let r : PublicKeyRequest := ⟨path, true⟩
    (Frame.ofRequest r r.p1 Continuation.last.code).toOption.map Frame.layout
  | signMessage m =>
    (Frame.ofRequest m.toRecord 0 Continuation.last.code).toOption.map Frame.layout
  | signTransaction tx => tx.plan.head?.bind fun c => c.toOption.map fun c => c.frame.layout
  | _ => none

/-- With this reply the call ends a flow: it could not be begun, the wait for the operator gave
something other than a signature sequence, or what was open was used up or given up. -/
def Ends : ClientCall → Reply → Prop
  | confirmPublicKey _, .ended (.failed _) => True
  | signMessage _, .ended (.failed _) => True
  | signTransaction _, .ended (.failed _) => True
  | resolve, .ended _ => True
  | collect, .ended _ => True
  | drop, .ended _ => True
  | _, _ => False

end ClientCall

/-- Where a task stands with the link. -/
inductive Grip where
  | free
  | held
  /-- It has the link, and began a flow on it. -/
  | flowing
  /-- It gave the link back after it began a flow. -/
  | spent
  deriving DecidableEq

namespace Grip

def has : Grip → Bool
  | held | flowing => true
  | free | spent => false

def released : Grip → Grip
  | held => free
  | flowing => spent
  | g => g

def sent (opening : Option Bytes) (apdu : Bytes) : Grip → Grip
  | held => if opening = some apdu then flowing else held
  | g => g

/-- What is left open keeps the link. -/
def ofHeld : List Held → Grip
  | [] => free
  | _ :: _ => flowing

variable {g : Grip} {opening : Option Bytes} {apdu : Bytes}

@[simp] theorem has_released : g.released.has = false := by
  cases g <;> rfl

@[simp] theorem has_sent : (g.sent opening apdu).has = g.has := by
  cases g with
  | held => by_cases h : opening = some apdu <;> simp [sent, h, has]
  | _ => rfl

/-- Who has the link is in a flow once the first frame of one is sent. -/
theorem sent_opening (hg : g.has = true) : g.sent (some apdu) apdu = flowing := by
  cases g with
  | held => exact if_pos rfl
  | flowing => rfl
  | free => cases hg
  | spent => cases hg

theorem has_ofHeld {l : List Held} : (ofHeld l).has = true ↔ l ≠ [] := by
  cases l with
  | nil => exact ⟨nofun, fun h => absurd rfl h⟩
  | cons x l => exact ⟨fun _ => nofun, fun _ => rfl⟩

theorem ofHeld_of_ne {l : List Held} (h : l ≠ []) : ofHeld l = flowing := by
  cases l with
  | nil => exact absurd rfl h
  | cons x l => rfl

theorem ofHeld_ne_spent {l : List Held} : ofHeld l ≠ spent := by
  cases l <;> nofun

end Grip

namespace Program

variable {α β : Type} {opening : Option Bytes} {P Q : Grip → α → Prop} {g : Grip}

/-- The program uses the link only while it has it, and what it ends with goes with where it stands
then. A program that has the link and asks for it waits for ever. -/
def Guarded (opening : Option Bytes) (Q : Grip → α → Prop) : Grip → Program α → Prop
  | g, done a => Q g a
  | g, acquire next => g ≠ .spent ∧ (g = .free → Guarded opening Q .held next)
  | g, release next => g.has = true ∧ Guarded opening Q g.released next
  | g, submit _ apdu next => g.has = true ∧ ∀ r, Guarded opening Q (g.sent opening apdu) (next r)
  | g, receive _ next => g.has = true ∧ ∀ r, Guarded opening Q g (next r)

theorem Guarded.mono {p : Program α} (h : Guarded opening P g p) (hPQ : ∀ g a, P g a → Q g a) :
    Guarded opening Q g p := by
  induction p generalizing g with
  | done a => exact hPQ g a h
  | acquire next ih => exact ⟨h.1, fun hfree => ih (h.2 hfree)⟩
  | release next ih => exact ⟨h.1, ih h.2⟩
  | submit limit apdu next ih => exact ⟨h.1, fun r => ih r (h.2 r)⟩
  | receive limit next ih => exact ⟨h.1, fun r => ih r (h.2 r)⟩

theorem guarded_bind {R : Grip → β → Prop} (p : Program α) (f : α → Program β) (g : Grip) :
    Guarded opening R g (p.bind f) ↔
      Guarded opening (fun g a => Guarded opening R g (f a)) g p := by
  induction p generalizing g with
  | done a => exact Iff.rfl
  | acquire next ih => exact and_congr_right fun _ => imp_congr_right fun _ => ih _
  | release next ih => exact and_congr_right fun _ => ih _
  | submit limit apdu next ih => exact and_congr_right fun _ => forall_congr' fun r => ih r _
  | receive limit next ih => exact and_congr_right fun _ => forall_congr' fun r => ih r _

theorem Guarded.bind {R : Grip → β → Prop} {p : Program α} {f : α → Program β}
    (hp : Guarded opening P g p) (hf : ∀ g a, P g a → Guarded opening R g (f a)) :
    Guarded opening R g (p.bind f) :=
  (guarded_bind p f g).2 (hp.mono hf)

/-- Once it gave the link back after a flow, a program has nothing left to do. -/
theorem Guarded.done_of_spent {p : Program α} (h : Guarded opening Q .spent p) :
    ∃ a, p = done a := by
  cases p with
  | done a => exact ⟨a, rfl⟩
  | acquire next => exact absurd rfl h.1
  | release next => cases h.1
  | submit limit apdu next => cases h.1
  | receive limit next => cases h.1

end Program

namespace Exchange

variable {α β : Type} {opening : Option Bytes} {g : Grip} {P P' : Grip → Prop}

/-- Whichever way the exchange ends, it stands so with the link then. -/
def Leads (opening : Option Bytes) (g : Grip) (P : Grip → Prop) (p : Exchange α) : Prop :=
  Program.Guarded opening (fun g _ => P g) g p.run

theorem Leads.mono {p : Exchange α} (h : Leads opening g P p) (hP : ∀ g, P g → P' g) :
    Leads opening g P' p :=
  Program.Guarded.mono h fun g _ => hP g

theorem leads_lift (r : Except ClientError α) (h : P g) : Leads opening g P (lift r) := h

theorem leads_pure (a : α) (h : P g) : Leads opening g P (pure a : Exchange α) := h

theorem leads_throw (e : ClientError) (h : P g) : Leads opening g P (throw e : Exchange α) := h

theorem Leads.bind {p : Exchange α} {f : α → Exchange β} (hp : Leads opening g P p)
    (hf : ∀ a g, P g → Leads opening g P (f a)) : Leads opening g P (p >>= f) := by
  refine Program.Guarded.bind hp ?_
  rintro g (e | a) h
  · exact h
  · exact hf a g h

theorem Leads.map {p : Exchange α} (hp : Leads opening g P p) (f : α → β) :
    Leads opening g P (f <$> p) := by
  refine Program.Guarded.bind hp ?_
  rintro g (e | a) h
  · exact h
  · exact h

theorem leads_submit (limit : Nat) (f : Frame) (hg : g.has = true)
    (h : P (g.sent opening f.layout)) : Leads opening g P (submit limit f) := by
  refine ⟨hg, fun r => ?_⟩
  cases r <;> exact h

theorem leads_receive (limit : Option Nat) (late : ClientError) (hg : g.has = true) (h : P g) :
    Leads opening g P (receive limit late) := by
  refine ⟨hg, fun r => ?_⟩
  cases r <;> exact h

theorem leads_answer (limit : Nat) (f : Frame) (hg : g.has = true)
    (h : P (g.sent opening f.layout)) : Leads opening g P (answer limit f) := by
  -- once the frame is sent nothing changes any more
  have hsubmit : Leads opening g (· = g.sent opening f.layout) (submit limit f) :=
    leads_submit limit f hg rfl
  have hreceive : Leads opening (g.sent opening f.layout) (· = g.sent opening f.layout)
      (receive (some limit) .requestTimeout) := leads_receive _ _ (Grip.has_sent.trans hg) rfl
  refine Leads.mono (hsubmit.bind ?_) fun _ heq => heq ▸ h
  rintro _ _ rfl
  refine hreceive.bind ?_
  rintro raw _ rfl
  exact leads_lift _ rfl

theorem leads_request (limit : Nat) (f : Frame) (hg : g.has = true)
    (h : P (g.sent opening f.layout)) : Leads opening g P (request limit f) := by
  refine (leads_answer limit f hg h).bind fun a g h => ?_
  exact (leads_lift _ h).bind fun _ g h => leads_pure _ h

/-- An exchange that asks for the link itself and gives it back; while the task has the link for
something else it waits. -/
def Keeps (opening : Option Bytes) (p : Exchange α) : Prop :=
  ∀ g, g = .free ∨ g = .flowing → Leads opening g (· = g) p

theorem Keeps.bind {p : Exchange α} {f : α → Exchange β} (hp : Keeps opening p)
    (hf : ∀ a, Keeps opening (f a)) : Keeps opening (p >>= f) := by
  intro g hg
  refine (hp g hg).bind ?_
  rintro a _ rfl
  exact hf a _ hg

theorem keeps_lift (r : Except ClientError α) : Keeps opening (lift r) :=
  fun _ _ => leads_lift r rfl

theorem keeps_pure (a : α) : Keeps opening (pure a : Exchange α) := fun _ _ => leads_pure a rfl

theorem keeps_throw (e : ClientError) : Keeps opening (throw e : Exchange α) :=
  fun _ _ => leads_throw e rfl

theorem keeps_holding {p : Exchange α} (hp : Leads opening .held (· = .held) p) :
    Keeps opening (holding p) := by
  rintro g (rfl | rfl)
  · refine ⟨nofun, fun _ => Program.Guarded.bind hp ?_⟩
    rintro _ r rfl
    exact ⟨rfl, rfl⟩
  · exact ⟨nofun, nofun⟩

/-- An exchange that goes on using the link. -/
def Stays (opening : Option Bytes) (p : Exchange α) : Prop :=
  ∀ g : Grip, g.has = true → Leads opening g (fun g => g.has = true) p

theorem Stays.bind {p : Exchange α} {f : α → Exchange β} (hp : Stays opening p)
    (hf : ∀ a, Stays opening (f a)) : Stays opening (p >>= f) :=
  fun g hg => (hp g hg).bind fun a g hg => hf a g hg

theorem stays_lift (r : Except ClientError α) : Stays opening (lift r) :=
  fun _ hg => leads_lift r hg

theorem stays_pure (a : α) : Stays opening (pure a : Exchange α) := fun _ hg => leads_pure a hg

theorem stays_throw (e : ClientError) : Stays opening (throw e : Exchange α) :=
  fun _ hg => leads_throw e hg

theorem stays_submit (limit : Nat) (f : Frame) : Stays opening (submit limit f) :=
  fun _ hg => leads_submit limit f hg (Grip.has_sent.trans hg)

theorem stays_receive (limit : Option Nat) (late : ClientError) :
    Stays opening (receive limit late) :=
  fun _ hg => leads_receive limit late hg hg

theorem stays_request (limit : Nat) (f : Frame) : Stays opening (request limit f) :=
  fun _ hg => leads_request limit f hg (Grip.has_sent.trans hg)

/-- Where an exchange ends that takes the link for a flow: it has the link with a value, and is
where it was with an error. -/
def Takes (Q : α → Prop) (g : Grip) : Grip → Except ClientError α → Prop
  | g', .ok a => g = .free ∧ g'.has = true ∧ Q a
  | g', .error _ => g'.has = g.has

theorem guarded_taking {p : Exchange Unit} {a : α} {Q : α → Prop} (hp : Stays opening p)
    (hg : g = .free ∨ g = .flowing) (ha : Q a) :
    Program.Guarded opening (Takes Q g) g (taking (p >>= fun _ => pure a)).run := by
  obtain rfl | rfl := hg
  · refine ⟨nofun, fun _ => (Program.guarded_bind _ _ _).2
      (Program.Guarded.bind (hp .held rfl) ?_)⟩
    rintro g (e | _) hg
    · exact ⟨hg, Grip.has_released⟩
    · exact ⟨rfl, hg, ha⟩
  · exact ⟨nofun, nofun⟩

/-- What is done before a flow keeps away from it. -/
theorem Keeps.takes_bind {p : Exchange α} {f : α → Exchange β} {Q : β → Prop}
    (hp : Keeps opening p) (hg : g = .free ∨ g = .flowing)
    (hf : ∀ a, Program.Guarded opening (Takes Q g) g (f a).run) :
    Program.Guarded opening (Takes Q g) g (p >>= f).run := by
  refine Program.Guarded.bind (hp g hg) ?_
  rintro _ (e | a) rfl
  · exact rfl
  · exact hf a

end Exchange

open Exchange

namespace SignatureStream

variable {opening : Option Bytes} {g : Grip}

theorem stays_fetch (s : SignatureStream) : Stays opening s.fetch := by
  unfold fetch
  split
  · exact stays_throw _
  · exact (stays_lift _).bind fun f => (stays_request _ f).bind fun data =>
      (stays_lift _).bind fun r => stays_pure _

theorem guarded_next (s : SignatureStream) (hg : g.has = true) :
    Program.Guarded opening (fun g _ => g.has = true) g s.next := by
  unfold next
  split
  · exact hg
  split
  · exact hg
  · exact Program.Guarded.bind (s.stays_fetch g hg) fun _ _ h => h

theorem stays_gather (fuel : Nat) (s : SignatureStream) : Stays opening (gather fuel s) := by
  induction fuel generalizing s with
  | zero => exact stays_pure _
  | succ fuel ih =>
    intro g hg
    refine (Program.guarded_bind _ _ _).2 (Program.Guarded.bind (s.guarded_next hg) ?_)
    rintro g ⟨_ | ⟨e | x⟩, t⟩ hg
    · exact hg
    · exact hg
    · exact ((ih t).bind fun rest => stays_pure _) g hg

/-- Whatever comes of it, the link is free after all signatures were asked for. -/
theorem leads_collect (s : SignatureStream) (hg : g.has = true) :
    Leads opening g (fun g => g.has = false) s.collect := by
  have hgather : Stays opening (do
      let signatures ← gather (s.expected + 2) s
      if signatures.length ≠ s.expected then
        throw (.missingSignatures s.expected signatures.length)
      pure (signatures.mergeSort fun a b => a.inputIndex ≤ b.inputIndex)) := by
    refine (s.stays_gather _).bind fun signatures => ?_
    split
    · exact stays_throw _
    · exact stays_pure _
  refine Program.Guarded.bind (hgather g hg) ?_
  intro g r hg
  exact ⟨hg, Grip.has_released⟩

end SignatureStream

namespace PendingApproval

variable {α : Type} {opening : Option Bytes} {g : Grip}

/-- The link is given back with the answer, unless its value goes on using it. -/
theorem guarded_resolve (p : PendingApproval α) (hg : g.has = true) :
    Program.Guarded opening (fun g r => g.has = !freesLink p.completion r) g p.resolve.run := by
  have hawait : Stays opening p.await := (stays_receive _ _).bind fun raw => stays_lift _
  refine Program.Guarded.bind (hawait g hg) ?_
  intro g r hg
  cases hfree : freesLink p.completion r with
  | true => exact ⟨hg, Grip.has_released.trans (congrArg (!·) hfree).symm⟩
  | false => exact hg.trans (congrArg (!·) hfree).symm

end PendingApproval

namespace Handle

variable (h : Handle) {opening : Option Bytes} {g : Grip}

theorem keeps_query {α : Type} [Request α] (r : α) (p1 : UInt8)
    (hne : ∀ f : Frame, f.ins = Request.ins α → opening ≠ some f.layout) :
    Keeps opening (h.query r p1) := by
  unfold query
  cases hf : Frame.ofRequest r p1 Continuation.last.code with
  | error e => exact keeps_throw _
  | ok f =>
    have hsame : Grip.sent opening f.layout .held = .held :=
      if_neg (hne f (Frame.ofRequest_ok hf).2.2.1)
    exact keeps_holding (leads_request _ f rfl hsame)

theorem keeps_publicKey (path : DerivationPath)
    (hne : ∀ f : Frame, f.ins = Instruction.getPublicKey.code → opening ≠ some f.layout) :
    Keeps opening (h.publicKey path) :=
  (h.keeps_query _ _ hne).bind fun _ => keeps_lift _

theorem keeps_inputKeys (inputs : List TransactionInput)
    (hne : ∀ f : Frame, f.ins = Instruction.getPublicKey.code → opening ≠ some f.layout) :
    Keeps opening (h.inputKeys inputs) := by
  induction inputs with
  | nil => exact keeps_pure _
  | cons i rest ih =>
    have hrest (key : Block 33) :
        Keeps opening (h.inputKeys rest >>= fun keys => pure (key :: keys)) :=
      ih.bind fun _ => keeps_pure _
    rw [inputKeys]
    cases i.publicKey with
    | some key => exact hrest key
    | none =>
      intro g hg
      refine ((h.keeps_publicKey i.path hne g hg).map _).bind ?_
      rintro key _ rfl
      exact hrest key _ hg

theorem stays_sendChunks (cs : List (Except WireError Chunk)) :
    Stays opening (h.sendChunks cs) := by
  induction cs with
  | nil => exact stays_throw _
  | cons c rest ih =>
    refine (stays_lift _).bind fun c => ?_
    split
    · exact stays_submit _ _
    · exact (stays_request _ _).bind fun _ => ih

/-- A query for an answer of some kind, whatever is then made of the answer. -/
theorem keeps_typed {α β : Type} [Request α] (r : α) (p1 : UInt8) (kind : ResponseKind)
    {f : Response → Exchange β} (hf : ∀ x, Keeps none (f x)) :
    Keeps none (h.query r p1 >>= fun data =>
      Exchange.liftWire (Response.decode kind data) >>= f) :=
  (h.keeps_query r p1 fun _ _ => (Option.some_ne_none _).symm).bind fun _ => (keeps_lift _).bind hf

theorem keeps_version : Keeps none h.version := by
  refine h.keeps_typed _ _ _ fun x => ?_
  split
  · exact keeps_pure _
  · exact keeps_throw _

theorem keeps_appName : Keeps none h.appName := by
  refine h.keeps_typed _ _ _ fun x => ?_
  split
  · exact keeps_pure _
  · exact keeps_throw _

theorem keeps_appInfo : Keeps none h.appInfo := by
  refine h.keeps_typed _ _ _ fun x => ?_
  split
  · exact keeps_pure _
  · exact keeps_throw _

theorem keeps_exchangeRaw (f : Frame) : Keeps none (h.exchangeRaw f) :=
  keeps_holding (leads_answer _ f rfl rfl)

variable {h}

theorem takes_confirmPublicKey (path : DerivationPath) (hg : g = .free ∨ g = .flowing) :
    Program.Guarded opening (Takes (fun p => p.completion.keepsLink = false) g) g
      (h.confirmPublicKey path).run :=
  (keeps_lift _).takes_bind hg fun f => guarded_taking (stays_submit _ f) hg rfl

theorem takes_signMessage (m : PersonalMessage) (hg : g = .free ∨ g = .flowing)
    (hne : ∀ f : Frame, f.ins = Instruction.getPublicKey.code → opening ≠ some f.layout) :
    Program.Guarded opening (Takes (fun p => p.completion.keepsLink = false) g) g
      (h.signMessage m).run :=
  (h.keeps_publicKey m.path hne).takes_bind hg fun _ => (keeps_lift _).takes_bind hg fun f =>
    guarded_taking (stays_submit _ f) hg rfl

theorem takes_signTransaction (tx : Transaction) (hg : g = .free ∨ g = .flowing)
    (hne : ∀ f : Frame, f.ins = Instruction.getPublicKey.code → opening ≠ some f.layout) :
    Program.Guarded opening (Takes (fun p => p.completion.keepsLink = true) g) g
      (h.signTransaction tx).run :=
  (h.keeps_inputKeys tx.inputs hne).takes_bind hg fun _ =>
    guarded_taking (h.stays_sendChunks tx.plan) hg rfl

end Handle

/-- A signature sequence goes on using the link, and nothing else that an approval leads to does. -/
def Held.Fits : Held → Prop
  | .key p => p.completion.keepsLink = false
  | .message p => p.completion.keepsLink = false
  | .transaction p => p.completion.keepsLink = true
  | .stream _ => True

namespace ClientCall

/-- Where a call may leave the task: it has the link exactly for what is open, and if the link is
given back after a flow, this call ends the flow. -/
structure Leaves (c : ClientCall) (g : Grip) (r : Reply × List Held) : Prop where
  length_le : r.2.length ≤ 1
  has_iff : g.has = true ↔ r.2 ≠ []
  fits : ∀ x ∈ r.2, x.Fits
  ends : g = .spent → c.Ends r.1

variable {c : ClientCall} {held : List Held} {opening : Option Bytes}

theorem leaves_ofHeld (hlen : held.length ≤ 1) (hfits : ∀ x ∈ held, x.Fits) (reply : Reply) :
    c.Leaves (.ofHeld held) (reply, held) where
  length_le := hlen
  has_iff := Grip.has_ofHeld
  fits := hfits
  ends h := absurd h Grip.ofHeld_ne_spent

theorem leaves_nothing {g : Grip} {reply : Reply} (hg : g.has = false) (hends : c.Ends reply) :
    c.Leaves g (reply, []) where
  length_le := Nat.zero_le 1
  has_iff := by simp [hg]
  fits := nofun
  ends _ := hends

theorem leaves_open {g : Grip} (hg : g.has = true) (hne : held ≠ []) (hlen : held.length ≤ 1)
    (hfits : ∀ x ∈ held, x.Fits) (reply : Reply) : c.Leaves g (reply, held) where
  length_le := hlen
  has_iff := ⟨fun _ => hne, fun _ => hg⟩
  fits := hfits
  ends h := by
    subst h
    cases hg

theorem leaves_one {g : Grip} {x : Held} (hg : g.has = true) (hx : x.Fits) (reply : Reply) :
    c.Leaves g (reply, [x]) :=
  leaves_open hg (List.cons_ne_nil _ _) (Nat.le_of_eq List.length_singleton)
    (List.forall_mem_singleton.2 hx) reply

theorem guarded_query {α : Type} {p : Exchange α} {f : α → Ending} (hp : Keeps opening p)
    (hlen : held.length ≤ 1) (hfits : ∀ x ∈ held, x.Fits) :
    Program.Guarded opening c.Leaves (.ofHeld held) (p.query f held) := by
  have hgrip : Grip.ofHeld held = .free ∨ Grip.ofHeld held = .flowing := by
    cases held with
    | nil => exact .inl rfl
    | cons x rest => exact .inr rfl
  refine (Program.guarded_bind _ _ _).2 (Program.Guarded.bind (hp _ hgrip) ?_)
  rintro _ r rfl
  exact leaves_ofHeld hlen hfits _

theorem guarded_ask {α : Type} {p : Exchange (PendingApproval α)} {f : PendingApproval α → Held}
    (hp : ∀ g : Grip, g = .free ∨ g = .flowing →
      Program.Guarded opening (Takes (fun pending => (f pending).Fits) g) g p.run)
    (hends : ∀ e, c.Ends (.ended (.failed e))) (hlen : held.length ≤ 1)
    (hfits : ∀ x ∈ held, x.Fits) :
    Program.Guarded opening c.Leaves (.ofHeld held) (p.ask f held) := by
  cases held with
  | nil =>
    refine Program.Guarded.bind (hp .free (.inl rfl)) ?_
    rintro g (e | pending) h
    · exact leaves_nothing h (hends e)
    · exact leaves_one h.2.1 h.2.2 _
  | cons x rest =>
    refine Program.Guarded.bind (hp .flowing (.inr rfl)) ?_
    rintro g (e | pending) h
    · exact leaves_open h (List.cons_ne_nil _ _) hlen hfits _
    · cases h.1

theorem guarded_settle_value {α : Type} {p : PendingApproval α} {f : α → Ending}
    (hp : p.completion.keepsLink = false) : Program.Guarded opening (Leaves .resolve) .flowing
      (p.settle (fun a => (.ended (f a), [])) []) := by
  refine Program.Guarded.bind (p.guarded_resolve rfl) ?_
  rintro g (e | a | _) h
  · exact leaves_nothing h trivial
  · refine leaves_nothing (h.trans ?_) trivial
    simp [PendingApproval.freesLink, hp]
  · exact leaves_nothing h trivial

theorem guarded_settle_stream {p : PendingApproval SignatureStream}
    (hp : p.completion.keepsLink = true) : Program.Guarded opening (Leaves .resolve) .flowing
      (p.settle (fun s => (.approved, [.stream s])) []) := by
  refine Program.Guarded.bind (p.guarded_resolve rfl) ?_
  rintro g (e | a | _) h
  · exact leaves_nothing h trivial
  · refine leaves_one (x := .stream a) (h.trans ?_) trivial _
    simp [PendingApproval.freesLink, hp]
  · exact leaves_nothing h trivial

theorem openingFrame_ne {f f' : Frame} (hf : f.ins = Instruction.getPublicKey.code)
    (hf' : f'.ins ≠ Instruction.getPublicKey.code) : some f'.layout ≠ some f.layout := by
  intro heq
  have hins : f'.ins = f.ins := (List.cons.inj (List.cons.inj (Option.some.inj heq)).2).1
  exact hf' (hins.trans hf)

theorem openingFrame_signMessage (m : PersonalMessage) {f : Frame}
    (hf : f.ins = Instruction.getPublicKey.code) :
    (signMessage m).openingFrame ≠ some f.layout := by
  rw [openingFrame]
  cases hm : Frame.ofRequest m.toRecord 0 Continuation.last.code with
  | error e => exact (Option.some_ne_none _).symm
  | ok f' =>
    refine openingFrame_ne hf ?_
    rw [(Frame.ofRequest_ok hm).2.2.1]
    decide

theorem openingFrame_signTransaction (tx : Transaction) {f : Frame}
    (hf : f.ins = Instruction.getPublicKey.code) :
    (signTransaction tx).openingFrame ≠ some f.layout := by
  rw [openingFrame]
  change ((Chunk.ofStep tx.header .start .more).toOption.map fun c => c.frame.layout) ≠ _
  cases hc : Chunk.ofStep tx.header .start .more with
  | error e => exact (Option.some_ne_none _).symm
  | ok c =>
    refine openingFrame_ne hf ?_
    rw [(Chunk.ofStep_ok hc).ins]
    decide

end ClientCall

open ClientCall

/-- What a call does with what is open, the one thing that may be. -/
theorem Handle.guarded_call_open (h : Handle) {c : ClientCall} {x : Held} (hx : x.Fits)
    (hc : c = .resolve ∨ c = .next ∨ c = .collect ∨ c = .drop) :
    Program.Guarded c.openingFrame c.Leaves .flowing (h.call c [x]) := by
  have hunable (c : ClientCall) : c.Leaves .flowing (.unable, [x]) := leaves_one rfl hx _
  obtain rfl | rfl | rfl | rfl := hc
  · cases x with
    | key p => exact guarded_settle_value hx
    | message p => exact guarded_settle_value hx
    | transaction p => exact guarded_settle_stream hx
    | stream s => exact hunable .resolve
  · cases x with
    | stream s =>
      refine Program.Guarded.bind (s.guarded_next rfl) ?_
      rintro g ⟨item, t⟩ hg
      exact leaves_one (x := .stream t) hg trivial _
    | _ => exact hunable .next
  · cases x with
    | stream s =>
      refine (Program.guarded_bind _ _ _).2 (Program.Guarded.bind (s.leads_collect rfl) ?_)
      intro g r hg
      exact leaves_nothing hg trivial
    | _ => exact hunable .collect
  · have hfree : Program.Guarded none (Leaves .drop) .flowing
        (Program.free.bind fun _ => .done (.ended .dropped, [])) :=
      ⟨rfl, leaves_nothing rfl trivial⟩
    cases x <;> exact hfree

/-- What a call does with the link, by what was open before. -/
theorem Handle.guarded_call (h : Handle) (c : ClientCall) {held : List Held}
    (hlen : held.length ≤ 1) (hfits : ∀ x ∈ held, x.Fits) :
    Program.Guarded c.openingFrame c.Leaves (.ofHeld held) (h.call c held) := by
  have hopen (hc : c = .resolve ∨ c = .next ∨ c = .collect ∨ c = .drop) :
      Program.Guarded c.openingFrame c.Leaves (.ofHeld held) (h.call c held) := by
    match held, hlen, hfits with
    | [], hlen, hfits =>
      obtain rfl | rfl | rfl | rfl := hc <;> exact leaves_ofHeld hlen hfits _
    | [x], _, hfits => exact h.guarded_call_open (hfits x List.mem_cons_self) hc
  cases c with
  | version => exact guarded_query h.keeps_version hlen hfits
  | appName => exact guarded_query h.keeps_appName hlen hfits
  | appInfo => exact guarded_query h.keeps_appInfo hlen hfits
  | publicKey path =>
    exact guarded_query (h.keeps_publicKey path fun _ _ => (Option.some_ne_none _).symm) hlen hfits
  | exchangeRaw f => exact guarded_query (h.keeps_exchangeRaw f) hlen hfits
  | confirmPublicKey path =>
    exact guarded_ask (fun g hg => takes_confirmPublicKey path hg) (fun _ => trivial) hlen hfits
  | signMessage m =>
    exact guarded_ask (fun g hg => takes_signMessage m hg fun f => openingFrame_signMessage m)
      (fun _ => trivial) hlen hfits
  | signTransaction tx =>
    exact guarded_ask
      (fun g hg => takes_signTransaction tx hg fun f => openingFrame_signTransaction tx)
      (fun _ => trivial) hlen hfits
  | resolve => exact hopen (.inl rfl)
  | next => exact hopen (.inr (.inl rfl))
  | collect => exact hopen (.inr (.inr (.inl rfl)))
  | drop => exact hopen (.inr (.inr (.inr rfl)))

end HardwareSigner
