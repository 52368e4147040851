import HardwareSigner.Client.Handle
import HardwareSigner.Link.Scripted
import HardwareSigner.Link.Wiretap
import HardwareSigner.Proofs.Client.Runs
import HardwareSigner.Proofs.Transaction.Chunker

/-! Where a transaction stops fitting its frames. A script may be as long as its length byte can
say, but the record that carries it has nine bytes more, and with the longest scripts a frame has no
room for them. No more than the length byte is looked at when an output is made, so the fault is met
on the way: frames up to that output have been sent by then. -/

namespace HardwareSigner

namespace Exchange

variable {τ : Type} [Transport τ]

/-- The link takes these frames one after the other and answers each of them with a success. -/
inductive Granted (limit : Nat) : τ → List Frame → τ → Prop
  | nil (t : τ) : Granted limit t [] t
  | cons {t t' t'' : τ} {f : Frame} {fs : List Frame} {data : Bytes}
      (h : (request limit f).run.run t = (some (.ok data), t')) (hs : Granted limit t' fs t'') :
      Granted limit t (f :: fs) t''

end Exchange

namespace Handle

variable {τ : Type} [Transport τ] {t t' : τ}

/-- A chunk without a frame ends the exchange with the chunks before it sent, and nothing else. -/
theorem run_sendChunks_error (h : Handle) {cs : List Chunk} (hcs : ∀ c ∈ cs, c.isTerminal = false)
    (hgrant : Exchange.Granted h.config.requestTimeout t (cs.map Chunk.frame) t') (e : WireError)
    (rest : List (Except WireError Chunk)) :
    (h.sendChunks (cs.map Except.ok ++ .error e :: rest)).run.run t =
      (some (.error (.wire e)), t') := by
  induction cs generalizing t with
  | nil =>
    cases hgrant
    rfl
  | cons c cs ih =>
    obtain ⟨hc, hcs⟩ := List.forall_mem_cons.1 hcs
    cases hgrant with
    | cons hrequest hgrant =>
      refine (Exchange.run_bind (Exchange.run_lift (.ok c) t) _).trans ?_
      rw [if_neg (by simp [hc])]
      exact (Exchange.run_bind hrequest _).trans (ih hcs hgrant)

end Handle

namespace Transaction

variable {tx : Transaction} {pre post : List TransactionOutput} {o : TransactionOutput}

theorem chunks_of_outputs (hpre : ∀ p ∈ pre, p.script.length ≤ 246) : ∃ cs : List Chunk,
    pre.map (fun o => Chunk.ofStep o.toRecord .outputs .more) = cs.map Except.ok ∧
      (∀ c ∈ cs, c.isTerminal = false) ∧
      cs.map (fun c => c.frame.data) = pre.map TransactionOutput.serialize := by
  induction pre with
  | nil => exact ⟨[], rfl, fun _ h => absurd h List.not_mem_nil, rfl⟩
  | cons p pre ih =>
    obtain ⟨hp, hpre⟩ := List.forall_mem_cons.1 hpre
    obtain ⟨c, hc⟩ := chunk_output hp
    obtain ⟨cs, hcs, hopen, hdata⟩ := ih hpre
    have hcarries := Chunk.ofStep_ok hc
    refine ⟨c :: cs, ?_, List.forall_mem_cons.2 ⟨hcarries.isTerminal, hopen⟩, ?_⟩
    · rw [List.map_cons, hc, hcs, List.map_cons]
    · rw [List.map_cons, List.map_cons, hcarries.output, hdata]

theorem plan_of_long (houts : tx.outputs = pre ++ o :: post)
    (hpre : ∀ p ∈ pre, p.script.length ≤ 246) (ho : 246 < o.script.length) :
    ∃ (cs : List Chunk) (rest : List (Except WireError Chunk)),
      tx.plan = cs.map Except.ok ++ .error .invalidLength :: rest ∧
      (∀ c ∈ cs, c.isTerminal = false) ∧
      cs.map (fun c => c.frame.data) =
        tx.header.layout :: pre.map TransactionOutput.serialize := by
  obtain ⟨start, hstart⟩ := chunk_header tx
  obtain ⟨outs, houtsok, hopen, hdata⟩ := chunks_of_outputs hpre
  have hcarries := Chunk.ofStep_ok hstart
  refine ⟨start :: outs, post.map (fun o => Chunk.ofStep o.toRecord .outputs .more) ++
    inputChunks tx.inputs, ?_, List.forall_mem_cons.2 ⟨hcarries.isTerminal, hopen⟩, ?_⟩
  · rw [plan, houts, List.map_append, List.map_cons, hstart, houtsok, chunk_output_error ho,
      List.append_assoc]
    rfl
  · rw [List.map_cons, hcarries.header, hdata]

theorem exists_first_long (h : ¬∀ o ∈ tx.outputs, o.script.length ≤ 246) :
    ∃ pre o post, tx.outputs = pre ++ o :: post ∧ (∀ p ∈ pre, p.script.length ≤ 246) ∧
      246 < o.script.length := by
  obtain ⟨long, hmem, hlong⟩ : ∃ o ∈ tx.outputs, 246 < o.script.length := by simpa using h
  cases hfind : tx.outputs.find? (fun o => 246 < o.script.length) with
  | none =>
    have := List.find?_eq_none.1 hfind long hmem
    simp at this
    omega
  | some o =>
    obtain ⟨ho, pre, post, houts, hpre⟩ := List.find?_eq_some_iff_append.1 hfind
    exact ⟨pre, o, post, houts, by simpa using hpre, by simpa using ho⟩

/-- Scripts of 246 bytes are the longest that can be sent. With them every chunk is handed out.
Behind the first longer one there is nothing: the chunks before it are handed out, then an error;
and a wallet that signs ends with the error once the link has taken and answered the frames of
these chunks, which are the header and every output before that one. -/
theorem framing_limit (tx : Transaction) :
    ((∀ n e, some (.error e) ∉ (Chunker.ofTransaction tx).items n) ↔
      ∀ o ∈ tx.outputs, o.script.length ≤ 246) ∧
    ∀ pre o post, tx.outputs = pre ++ o :: post → (∀ p ∈ pre, p.script.length ≤ 246) →
      246 < o.script.length → ∃ cs : List Chunk,
        cs.map (fun c => c.frame.data) =
          tx.header.layout :: pre.map TransactionOutput.serialize ∧
        (∀ n, (Chunker.ofTransaction tx).items n = (List.range n).map fun k =>
          (cs.map Except.ok ++ [.error (.wire .invalidLength)])[k]?) ∧
        ∀ (τ : Type) [Transport τ] (h : Handle) (keys : List (Block 33)) (t t' t'' : τ),
          (h.inputKeys tx.inputs).run.run t = (some (.ok keys), t') →
          Exchange.Granted h.config.requestTimeout t' (cs.map Chunk.frame) t'' →
          (h.signTransaction tx).run.run t = (some (.error (.wire .invalidLength)), t'') := by
  refine ⟨⟨fun h => ?_, fun h n e hmem => ?_⟩, fun pre o post houts hpre ho => ?_⟩
  · by_contra hlong
    obtain ⟨pre, o, post, houts, hpre, ho⟩ := exists_first_long hlong
    obtain ⟨cs, rest, hplan, -, -⟩ := plan_of_long houts hpre ho
    obtain ⟨n, hn⟩ : ∃ n, some (.error (.wire .invalidLength)) ∈
        (Chunker.ofTransaction tx).items n := by
      refine Chunker.mem_items.2 ?_
      rw [hplan, Chunker.delivered_error]
      exact List.mem_append_right _ (List.mem_singleton_self _)
    exact h n _ hn
  · obtain ⟨cs, hcs⟩ := chunks_complete h
    have hdelivered := Chunker.mem_items.1 ⟨n, hmem⟩
    rw [chunks_eq_ok.1 hcs, Chunker.delivered_map_ok] at hdelivered
    obtain ⟨c, -, hc⟩ := List.mem_map.1 hdelivered
    cases hc
  · obtain ⟨cs, rest, hplan, hopen, hdata⟩ := plan_of_long houts hpre ho
    refine ⟨cs, hdata, fun n => ?_, fun τ _ h keys t t' t'' hkeys hgrant => ?_⟩
    · rw [Chunker.ofTransaction, Chunker.items_eq, hplan, Chunker.delivered_error]
    · have hsend := h.run_sendChunks_error hopen hgrant .invalidLength rest
      rw [← hplan] at hsend
      refine (Exchange.run_bind hkeys _).trans (Exchange.run_taking_error ?_)
      exact Exchange.run_bind_error hsend _

end Transaction

namespace FramingExample

/-- A script that its length byte can count and that no frame can carry. -/
def script : Bytes := List.replicate 247 0

theorem length_script : script.length = 247 := List.length_replicate

def output : TransactionOutput := ⟨8, script, by rw [length_script]; decide⟩

def tx : Transaction :=
  .ofInBounds 0 [⟨9, Block.zero 32, 0, 0, 0, some (Block.zero 33)⟩] [output] none

theorem long_output : 246 < output.script.length := by
  rw [output, length_script]
  decide

/-- A device that takes one frame and answers it with a success. -/
def link : Wiretap ScriptedLink := .ofLink ⟨[.onReceive (.answer [0x90, 0x00])]⟩ []

def answered (f : Frame) : Wiretap ScriptedLink := ⟨⟨[]⟩, [], [f.layout], [[0x90, 0x00]]⟩

theorem granted (limit : Nat) (f : Frame) : Exchange.Granted limit link [f] (answered f) := by
  have hreceive : Transport.receive (Transport.submit link f.layout).2 =
      (.answer (Answer.mk [] StatusWord.ok.code).layout, answered f) := rfl
  exact .cons (Exchange.run_request limit rfl hreceive) (.nil _)

end FramingExample

open FramingExample Transaction in
/-- The header is on its way to the device before it shows that the output behind it is too long. -/
theorem framing_limit_long_script : ∃ f : Frame, f.data = tx.header.layout ∧
    ((Handle.mk Secp256k1.system {}).signTransaction tx).run.run link =
      (some (.error (.wire .invalidLength)), answered f) := by
  obtain ⟨cs, hdata, -, hsign⟩ := (framing_limit tx).2 [] output [] rfl nofun long_output
  have hlen : cs.length = 1 := by simpa using congrArg List.length hdata
  obtain ⟨c, rfl⟩ := List.length_eq_one_iff.1 hlen
  exact ⟨c.frame, by simpa using hdata, hsign _ _ [Block.zero 33] link link _ rfl (granted _ _)⟩

open FramingExample Transaction in
/-- Everything is accepted as the transaction is made, yet its second chunk is an error. -/
theorem constructible_not_framed :
    TransactionOutput.ofParts 8 script = .ok output ∧
    Transaction.ofParts 0 tx.inputs [output] = .ok tx ∧
    some (.error (.wire .invalidLength)) ∈ (Chunker.ofTransaction tx).items 2 := by
  have houts : tx.outputs = [] ++ output :: [] := rfl
  obtain ⟨cs, rest, hplan, -, hdata⟩ := plan_of_long houts nofun long_output
  have hlen : cs.length = 1 := by simpa using congrArg List.length hdata
  refine ⟨dif_pos _, rfl, ?_⟩
  rw [Chunker.ofTransaction, Chunker.items_eq, hplan, Chunker.delivered_error]
  refine List.mem_map.2 ⟨1, by simp, ?_⟩
  simp [hlen]

end HardwareSigner
