import HardwareSigner.Proofs.Client.Course
import HardwareSigner.Proofs.Client.Simulated
import HardwareSigner.Proofs.Transaction.Framing

/-! Signing as a link sees it: a request for each key that is not known, then the pieces of the
transaction, the last of which is left to the operator. -/

namespace HardwareSigner

namespace PublicKeyRequest

/-- The frame that asks for the key of a path and not for the operator. -/
def frame (path : DerivationPath) : Frame where
  cla := appClass
  ins := Instruction.getPublicKey.code
  p1 := 0
  p2 := 0
  data := path.layout
  length_data := path.length_layout_le

theorem ofRequest_frame (path : DerivationPath) :
    Frame.ofRequest (PublicKeyRequest.mk path false) 0 Continuation.last.code =
      .ok (frame path) := by
  have hlen := path.length_layout_le
  refine bind_eq_ok.2 ⟨path.layout.length, rfl, ?_⟩
  rw [if_neg (Nat.not_lt.2 hlen)]
  exact bind_eq_ok.2 ⟨path.layout, rfl, dif_pos hlen⟩

end PublicKeyRequest

namespace Transaction

def keyFrames (inputs : List TransactionInput) : List Frame :=
  (inputs.filter (·.publicKey.isNone)).map fun i => PublicKeyRequest.frame i.path

/-- The frames of the chunks that are handed out, up to one that has none. -/
def framesOf (plan : List (Except WireError Chunk)) : List Frame :=
  (Chunker.delivered plan).filterMap fun
    | .ok c => some c.frame
    | .error _ => none

def frames (tx : Transaction) : List Frame := keyFrames tx.inputs ++ framesOf tx.plan

/-- Chunks, as far as they have frames, of which the last one and no other ends the exchange. -/
inductive Planned : List (Except WireError Chunk) → Prop
  | last {x : Except WireError Chunk} (hx : ∀ c, x = .ok c → c.isTerminal = true) : Planned [x]
  | more {x : Except WireError Chunk} {rest : List (Except WireError Chunk)}
      (hx : ∀ c, x = .ok c → c.isTerminal = false ∧ c.frame.ins ≠ Instruction.getPublicKey.code)
      (hrest : Planned rest) : Planned (x :: rest)

theorem waits_of_ofStep {α : Type} [Request α] {r : α} {phase : Phase} {c : Chunk}
    (hins : Request.ins α ≠ Instruction.getPublicKey.code)
    (hc : Chunk.ofStep r phase .more = .ok c) :
    c.isTerminal = false ∧ c.frame.ins ≠ Instruction.getPublicKey.code := by
  have hcarries := Chunk.ofStep_ok hc
  refine ⟨hcarries.isTerminal, ?_⟩
  rw [hcarries.ins]
  exact hins

theorem planned_inputChunks {inputs : List TransactionInput} (hne : inputs ≠ []) :
    Planned (inputChunks inputs) := by
  induction inputs with
  | nil => exact absurd rfl hne
  | cons i rest ih =>
    cases rest with
    | nil => exact .last fun c hc => (Chunk.ofStep_ok hc).isTerminal
    | cons j rest =>
      exact .more (fun c hc => waits_of_ofStep (by decide) hc) (ih (List.cons_ne_nil j rest))

theorem planned_outputs {outputs : List TransactionOutput} {rest : List (Except WireError Chunk)}
    (hrest : Planned rest) : Planned
      (outputs.map (fun o => Chunk.ofStep o.toRecord .outputs .more) ++ rest) := by
  induction outputs with
  | nil => exact hrest
  | cons o outputs ih =>
    exact .more (fun c hc => waits_of_ofStep (by decide) hc) ih

theorem planned_plan (tx : Transaction) : Planned tx.plan :=
  .more (fun c hc => waits_of_ofStep (by decide) hc)
    (planned_outputs (planned_inputChunks tx.inputs_ne))

/-- The error behind the frames of a plan, unless each of its chunks has a frame. -/
def stopOf (plan : List (Except WireError Chunk)) : Option ClientError :=
  ClientError.fault? (plan.mapM fun c => ClientError.liftWire c)

theorem stopOf_error (e : WireError) (rest : List (Except WireError Chunk)) :
    stopOf (.error e :: rest) = some (.wire e) := by
  unfold stopOf
  rw [List.mapM_cons]
  rfl

theorem stopOf_ok (c : Chunk) (rest : List (Except WireError Chunk)) :
    stopOf (.ok c :: rest) = stopOf rest := by
  unfold stopOf
  rw [List.mapM_cons]
  cases rest.mapM fun c => ClientError.liftWire c <;> rfl

theorem framesOf_ne_nil {plan : List (Except WireError Chunk)} (h : Planned plan)
    (hstop : stopOf plan = none) : framesOf plan ≠ [] := by
  have hframed : ∀ x rest, stopOf (x :: rest) = none → framesOf (x :: rest) ≠ [] := by
    rintro (e | c) rest hstop
    · rw [stopOf_error] at hstop
      cases hstop
    · exact List.cons_ne_nil _ _
  cases h with
  | last _ => exact hframed _ _ hstop
  | more _ _ => exact hframed _ _ hstop

theorem keyFrames_cons (i : TransactionInput) (rest : List TransactionInput) :
    keyFrames (i :: rest) = keyFrames [i] ++ keyFrames rest := by
  rw [keyFrames, ← List.singleton_append, List.filter_append, List.map_append]
  rfl

end Transaction

namespace Handle

open Exchange

variable {α : Type} {stop : Option ClientError} {fs : List Frame}

theorem opens_publicKey (h : Handle) (path : DerivationPath) :
    Opens stop [PublicKeyRequest.frame path] (h.publicKey path) := by
  have hrequest : Replies (PublicKeyRequest.frame path) dataOf
      (h.query (PublicKeyRequest.mk path false) 0) := by
    unfold query
    rw [PublicKeyRequest.ofRequest_frame]
    exact logs_releasing (replies_request h.config.requestTimeout _)
  exact (hrequest.bind Completion.decodeKey).opens fun raw => Frame.judge_of_key rfl

theorem opens_inputKey (h : Handle) (i : TransactionInput) :
    Opens stop (Transaction.keyFrames [i]) (h.inputKey i) := by
  unfold inputKey
  cases hkey : i.publicKey with
  | none =>
    have hframes : Transaction.keyFrames [i] = [PublicKeyRequest.frame i.path] := by
      simp [Transaction.keyFrames, hkey]
    rw [hframes]
    exact (h.opens_publicKey i.path).map _
  | some k =>
    have hframes : Transaction.keyFrames [i] = [] := by simp [Transaction.keyFrames, hkey]
    rw [hframes]
    exact opens_pure k

theorem opens_inputKeys (h : Handle) (inputs : List TransactionInput) :
    Opens stop (Transaction.keyFrames inputs) (h.inputKeys inputs) := by
  induction inputs with
  | nil => exact opens_pure []
  | cons i rest ih =>
    rw [h.inputKeys_cons, Transaction.keyFrames_cons,
      ← List.append_nil (Transaction.keyFrames rest)]
    exact (h.opens_inputKey i).bind fun k => ih.bind fun ks => opens_pure (k :: ks)

theorem follows_sendChunks (h : Handle) {plan : List (Except WireError Chunk)}
    (hplan : Transaction.Planned plan) :
    Follows (Transaction.stopOf plan) (Transaction.framesOf plan) (h.sendChunks plan) := by
  have hunframed : ∀ e rest, Follows (Transaction.stopOf (.error e :: rest))
      (Transaction.framesOf (.error e :: rest)) (h.sendChunks (.error e :: rest)) :=
    fun e rest => Course.unframed (Transaction.stopOf_error e rest)
  induction hplan with
  | @last x hx =>
    cases x with
    | error e => exact hunframed e []
    | ok c =>
      change Follows _ [c.frame] (if c.isTerminal then _ else _)
      rw [if_pos (hx c rfl)]
      rintro (_ | e | _)
      · exact .closed (Transaction.stopOf_ok c [])
      · exact .unsent (.failed e)
      · exact .unsent .silent
  | @more x rest hx hrest ih =>
    cases x with
    | error e => exact hunframed e rest
    | ok c =>
      obtain ⟨hopen, hins⟩ := hx c rfl
      change Follows _ ([c.frame] ++ Transaction.framesOf rest) (if c.isTerminal then _ else _)
      rw [if_neg (by rw [hopen]; exact Bool.false_ne_true), Transaction.stopOf_ok]
      have hrequest : Opens (Transaction.stopOf rest) [c.frame]
          (request h.config.requestTimeout c.frame) :=
        (replies_request _ c.frame).opens fun raw => Frame.judge_of_ne hins
      exact hrequest.follows (Transaction.framesOf_ne_nil hrest) fun _ => ih

theorem follows_signTransaction (h : Handle) (tx : Transaction) :
    Follows (Transaction.stopOf tx.plan) tx.frames (h.signTransaction tx) := by
  refine (h.opens_inputKeys tx.inputs).follows ?_ fun keys => ?_
  · exact Transaction.framesOf_ne_nil tx.planned_plan
  · exact logs_taking ((h.follows_sendChunks tx.planned_plan).pure _)

end Handle

namespace Transaction

variable {tx : Transaction} {cs : List Chunk}

theorem framesOf_map_ok (cs : List Chunk) :
    framesOf (cs.map Except.ok) = cs.map Chunk.frame := by
  unfold framesOf
  rw [Chunker.delivered_map_ok, List.filterMap_map]
  exact congrFun (List.filterMap_eq_map (f := Chunk.frame)) cs

theorem frames_of_chunks (h : tx.chunks = .ok cs) :
    tx.frames = keyFrames tx.inputs ++ cs.map Chunk.frame := by
  rw [frames, chunks_eq_ok.1 h, framesOf_map_ok]

theorem frames_of_chunks_concat {last : Chunk} (h : tx.chunks = .ok (cs ++ [last])) :
    tx.frames = (keyFrames tx.inputs ++ cs.map Chunk.frame) ++ [last.frame] := by
  rw [frames_of_chunks h, List.map_append, List.append_assoc]
  rfl

theorem isTerminal_last {last : Chunk} (h : Chunk.Ended (cs ++ [last])) :
    last.isTerminal = true := by
  induction cs with
  | nil =>
    cases h with
    | last hc => exact hc
    | more _ h => cases h
  | cons c cs ih =>
    generalize htail : cs ++ [last] = tail at h
    rw [List.cons_append, htail] at h
    cases h with
    | last _ => simp at htail
    | more _ h => exact ih (htail ▸ h)

/-- What a link sees of the signing of a transaction, and how that ends. -/
structure Signing {α : Type} (tx : Transaction) (log : List Passage)
    (r : Except ClientError α) : Prop where
  /-- Frames go out in one order and none is left out. -/
  ordered : Passage.submissions log <+: tx.frames.map Frame.layout
  /-- A frame goes out only once each one before it was met by its answer. -/
  answered : Log.Each (Exchange.Course.Next tx.frames) log
  /-- The next frame does go out once each one before it was met. -/
  offered : ∀ done f rest before, tx.frames = done ++ f :: rest →
    Exchange.Answered done before → before <+: log →
      ∃ x after, log = before ++ .submitted f.layout x :: after
  /-- There is no wait behind the last frame, and it is well as soon as the link has it. -/
  terminal : ∀ cs last before x after, tx.chunks = .ok (cs ++ [last]) →
    Exchange.Answered (keyFrames tx.inputs ++ cs.map Chunk.frame) before →
    log = before ++ .submitted last.frame.layout x :: after →
      last.isTerminal = true ∧ after = [] ∧ ((∃ a, r = .ok a) ↔ x = .accepted)
  /-- In no other way does it end well. -/
  complete : (∃ a, r = .ok a) → ∃ cs last before, tx.chunks = .ok (cs ++ [last]) ∧
    Exchange.Answered (keyFrames tx.inputs ++ cs.map Chunk.frame) before ∧
    log = before ++ [.submitted last.frame.layout .accepted]
  /-- Otherwise the frame that was next was not sent or not met, or behind frames that all were met
  there is a chunk that has none. -/
  failed : ∀ e, r = .error e →
    Exchange.Fails (ClientError.fault? tx.chunks) tx.frames log e
  /-- A status word that is no success ends it at once, and is the error that it ends in. -/
  refused : ∀ before raw a after, log = before ++ .received (.answer raw) :: after →
    Exchange.answerOf raw = .ok a → a.status ≠ StatusWord.ok.code →
      after = [] ∧ r = .error (ClientError.ofStatus a.status)

theorem signing_of_course {α : Type} {log : List Passage} {r : Except ClientError α}
    (h : Exchange.Course (ClientError.fault? tx.chunks) tx.frames log (ClientError.fault? r)) :
    tx.Signing log r := by
  refine ⟨h.submissions, h.answered, ?_, ?_, ?_, ?_, ?_⟩
  · intro done f rest before hframes hdone hbefore
    exact h.offered hdone hbefore hframes
  · intro cs last before x after hcs hdone hlog
    have hstop := ClientError.fault?_eq_none.2 ⟨_, hcs⟩
    obtain ⟨hafter, hends⟩ := h.terminal hstop hdone (frames_of_chunks_concat hcs) hlog
    exact ⟨isTerminal_last (framed_of_chunks hcs).ended, hafter,
      ClientError.fault?_eq_none.symm.trans hends⟩
  · intro hends
    rw [ClientError.fault?_eq_none.2 hends] at h
    obtain ⟨hstop, done, last, before, hframes, hdone, hlog⟩ := h.closing
    obtain ⟨cs, hcs⟩ := ClientError.fault?_eq_none.1 hstop
    rcases List.eq_nil_or_concat cs with rfl | ⟨cs, c, rfl⟩
    · cases (framed_of_chunks hcs).ended
    · rw [List.concat_eq_append] at hcs
      rw [frames_of_chunks_concat hcs] at hframes
      obtain ⟨rfl, hlast⟩ := List.append_inj' hframes rfl
      obtain rfl := List.head_eq_of_cons_eq hlast
      exact ⟨cs, c, before, hcs, hdone, hlog⟩
  · rintro e rfl
    exact h.fails
  · intro before raw a after hlog ha hstatus
    obtain ⟨hafter, hr⟩ := h.refused hlog ha hstatus
    refine ⟨hafter, ?_⟩
    cases r with
    | error e => exact congrArg Except.error (Option.some.inj hr)
    | ok a => cases hr

end Transaction

/-- However a link reacts, signing comes to an end, and what passed until then is as the protocol
has it. -/
theorem Handle.signTransaction_protocol {τ : Type} [Transport τ] (h : Handle) (tx : Transaction)
    (t : τ) : ∃ r t' log,
      (h.signTransaction tx).run.run (Recorded.mk t []) = (some r, ⟨t', log⟩) ∧
      (h.signTransaction tx).run.run t = (some r, t') ∧ tx.Signing log r := by
  obtain ⟨r, t', log, hrecorded, hrun, hcourse⟩ := (h.follows_signTransaction tx).run t []
  exact ⟨r, t', log, hrecorded, hrun, Transaction.signing_of_course hcourse⟩

namespace ProtocolExample

open ChunkerExample (received returned fitting)

def handle : Handle := ⟨Secp256k1.system, {}⟩

/-- The key of the first input has to be asked for. -/
def tx : Transaction := .ofInBounds 1
  [received, { returned with publicKey := some (Block.zero 33) }] [fitting] none

def key : PublicKey :=
  ⟨⟨PublicKey.uncompressed :: (Block.zero 64).bytes, by simp [Block.length_bytes]⟩, Block.zero 32⟩

/-- What a device answers with this data. -/
def success (data : Bytes) : Received := .answer (Answer.mk data StatusWord.ok.code).layout

def link : ScriptedLink :=
  ⟨.onReceive (success key.layout) :: List.replicate 3 (.onReceive (success []))⟩

def piece (phase : Phase) (cont : Continuation) (data : Bytes) : Passage :=
  .submitted (appClass :: Instruction.signTx.code :: phase.code :: cont.code ::
    UInt8.ofNat data.length :: data) .accepted

def passed : List Passage :=
  [.submitted (PublicKeyRequest.frame received.path).layout .accepted,
    .received (success key.layout),
    piece .start .more tx.header.layout, .received (success []),
    piece .outputs .more fitting.serialize, .received (success []),
    piece .inputs .more received.serialize, .received (success []),
    piece .inputs .last returned.serialize]

end ProtocolExample

open ProtocolExample in
theorem signTransaction_protocol_to_the_end :
    Passage.submissions passed = tx.frames.map Frame.layout ∧
    ∃ pending, (handle.signTransaction tx).run.run (Recorded.mk link []) =
        (some (.ok pending), ⟨⟨[]⟩, passed⟩) ∧
      tx.Signing passed (.ok pending : Except ClientError _) := by
  have hrun : (handle.signTransaction tx).run.run (Recorded.mk link []) =
      (some (.ok (handle.pendingOn (.transaction handle.system tx
        [key.compressed, Block.zero 33] handle.config.requestTimeout))), ⟨⟨[]⟩, passed⟩) := rfl
  obtain ⟨r, t', log, hlogged, -, hsigning⟩ := handle.signTransaction_protocol tx link
  obtain ⟨⟨⟩, ⟨⟩⟩ := Prod.mk.inj (hlogged.symm.trans hrun)
  exact ⟨rfl, _, hrun, hsigning⟩

end HardwareSigner
