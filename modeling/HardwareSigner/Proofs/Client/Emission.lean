import HardwareSigner.Proofs.Client.Collection
import HardwareSigner.Proofs.Device.Release
import HardwareSigner.Proofs.Transaction.Serial

/-! The order in which signatures come. Whether a record passes is between it and its input, and the
ones before it are no matter as long as they are for other inputs; what is collected is put in the
order of the inputs. So a wallet collects one and the same list, in whatever order a device hands
the records out. -/

namespace HardwareSigner

namespace TxSignature

/-- What a wallet hands on of a record that passes its checks. -/
def signed (r : TxSignature) : InputSignature :=
  ⟨r.inputIndex, r.scheme, r.signature, r.recoveryId, r.sighash⟩

@[simp] theorem map_signed_handOut (queue : List TxSignature) :
    (handOut queue).map signed = queue.map signed := by
  induction queue with
  | nil => rfl
  | cons q rest ih => exact congrArg (q.signed :: ·) ih

end TxSignature

namespace SignatureStream

variable {s : SignatureStream} {r r' : TxSignature}

/-- The record is for an input that has no signature yet, and holds for it. -/
structure Passes (s : SignatureStream) (r : TxSignature) : Prop where
  fresh : s.seen[r.inputIndex.toNat]? = some false
  holds : r.signed.Holds s.system s.tx s.keys

theorem Passes.check (h : s.Passes r) : s.check r = .ok r.signed := by
  obtain ⟨key, hkey, hhash, hverify⟩ := h.holds
  exact check_eq_ok key h.fresh hkey hhash hverify

theorem Passes.accept (h : s.Passes r) (hne : r'.inputIndex.toNat ≠ r.inputIndex.toNat) :
    (s.accept r').Passes r := by
  refine ⟨?_, h.holds⟩
  change (s.seen.set r'.inputIndex.toNat true)[r.inputIndex.toNat]? = some false
  rw [List.getElem?_set_ne hne]
  exact h.fresh

theorem Passes.started (h : s.Passes r) : ({ s with pending := none } : SignatureStream).Passes r :=
  ⟨h.fresh, h.holds⟩

/-- The first record and those behind it pass one after the other. -/
theorem passes_tail {records : List TxSignature}
    (hnodup : ((r :: records).map fun r => r.inputIndex.toNat).Nodup)
    (hpass : ∀ r' ∈ records, s.Passes r') : ∀ r' ∈ records, (s.accept r).Passes r' := by
  intro r' hr'
  refine (hpass r' hr').accept ?_
  intro heq
  rw [List.map_cons, List.nodup_cons] at hnodup
  exact hnodup.1 (heq ▸ List.mem_map_of_mem hr')

section

variable {τ : Type} [Transport τ]

/-- The link takes a request for the next signature for each of these records, and answers it with
the record. -/
inductive Emits : τ → List TxSignature → τ → Prop
  | nil (link : τ) : Emits link [] link
  | cons {link asked answered link' : τ} {r : TxSignature} {records : List TxSignature}
      (hsubmit : Transport.submit link nextFrame.layout = (.accepted, asked))
      (hreceive : Transport.receive asked =
        (.answer (Answer.mk r.layout StatusWord.ok.code).layout, answered))
      (h : Emits answered records link') : Emits link (r :: records) link'

variable {link link' : τ}

theorem run_gather_emits (n : Nat) {queue : List TxSignature}
    (hemits : Emits link (TxSignature.handOut queue) link') (hp : s.pending = none)
    (hf : s.finished = queue.isEmpty) (hcount : s.received + queue.length = s.expected)
    (hnodup : ((TxSignature.handOut queue).map fun r => r.inputIndex.toNat).Nodup)
    (hpass : ∀ r ∈ TxSignature.handOut queue, s.Passes r) :
    (gather (n + 1 + queue.length) s).run.run link =
      (some (.ok (queue.map TxSignature.signed)), link') := by
  induction queue generalizing s link with
  | nil =>
    cases hemits
    exact run_gather_done n hf _
  | cons q rest ih =>
    set r : TxSignature := { q with hasMore := !rest.isEmpty }
    obtain ⟨hfirst, hothers⟩ := List.forall_mem_cons.1 hpass
    cases hemits with
    | cons hsubmit hreceive hemits =>
      have hnext := run_next hf hp (by rw [List.length_cons] at hcount; omega) hsubmit hreceive
        hfirst.check
      have hexpected : (s.accept r).expected = s.expected := by simp [expected, accept]
      have hrest := ih (s := s.accept r) hemits hp (by simp [accept, r])
        (by rw [hexpected, ← hcount]; simp [accept]; omega) (List.nodup_cons.1 hnodup).2
        (passes_tail hnodup hothers)
      exact run_gather_next _ hnext hrest

/-- From the record that came with the approval on, everything is collected. -/
theorem run_collect_emits {system : SignatureSystem} {tx : Transaction} {keys : List (Block 33)}
    {limit : Nat} {q : TxSignature} {rest : List TxSignature}
    (hemits : Emits link (TxSignature.handOut rest) link')
    (hcount : rest.length + 1 = tx.inputs.length)
    (hnodup : ((TxSignature.handOut (q :: rest)).map fun r => r.inputIndex.toNat).Nodup)
    (hpass : ∀ r ∈ TxSignature.handOut (q :: rest),
      (ofFirst system tx keys limit { q with hasMore := !rest.isEmpty }).Passes r) :
    (ofFirst system tx keys limit { q with hasMore := !rest.isEmpty }).collect.run.run link =
      (some (.ok (((q :: rest).map TxSignature.signed).mergeSort fun a b =>
        a.inputIndex ≤ b.inputIndex)), link') := by
  set r : TxSignature := { q with hasMore := !rest.isEmpty }
  set s := ofFirst system tx keys limit r
  have hexpected : s.expected = rest.length + 1 := by simp [s, expected, ofFirst, hcount]
  obtain ⟨hfirst, hothers⟩ := List.forall_mem_cons.1 hpass
  have hnext := next_of_pending (s := s) rfl rfl hfirst.check
  set after := ({ s with pending := none } : SignatureStream).accept r
  have hafter : after.expected = s.expected := by simp [after, expected, accept]
  have hrest := run_gather_emits (s := after) 1 hemits rfl (by simp [after, accept, r])
    (by rw [hafter, hexpected]; simp [after, accept, s, ofFirst]; omega)
    (List.nodup_cons.1 hnodup).2 (passes_tail hnodup fun r' hr' => (hothers r' hr').started)
  have hgather : (gather (s.expected + 2) s).run.run link =
      (some (.ok ((q :: rest).map TxSignature.signed)), link') := by
    rw [hexpected, show rest.length + 1 + 2 = 1 + 1 + rest.length + 1 by omega]
    exact run_gather_next _ (congrArg (Program.run · link) hnext) hrest
  exact run_collect hgather (by rw [hexpected]; simp)

end

theorem passes_ofFirst {system : SignatureSystem} {tx : Transaction} {keys : List (Block 33)}
    {limit : Nat} {first : TxSignature} (hplace : r.inputIndex.toNat < tx.inputs.length)
    (hholds : r.signed.Holds system tx keys) : (ofFirst system tx keys limit first).Passes r where
  fresh := by simp [ofFirst, hplace]
  holds := hholds

/-- Sorting forgets the order from before, for signatures of different inputs. -/
theorem mergeSort_eq_of_perm {xs ys : List InputSignature} (h : xs.Perm ys)
    (hnodup : (xs.map fun x => x.inputIndex.toNat).Nodup) :
    (xs.mergeSort fun a b => a.inputIndex ≤ b.inputIndex) =
      ys.mergeSort fun a b => a.inputIndex ≤ b.inputIndex := by
  have hx := List.mergeSort_perm xs fun a b => a.inputIndex ≤ b.inputIndex
  have hy := List.mergeSort_perm ys fun a b => a.inputIndex ≤ b.inputIndex
  refine List.Perm.eq_of_pairwise ?_ (pairwise_mergeSort xs) (pairwise_mergeSort ys)
    (hx.trans (h.trans hy.symm))
  intro a b ha hb hab hba
  have ha := hx.mem_iff.1 ha
  have hb := h.mem_iff.2 (hy.mem_iff.1 hb)
  exact List.inj_on_of_nodup_map hnodup ha hb (congrArg UInt8.toNat (UInt8.le_antisymm hab hba))

end SignatureStream

open SignatureStream in
/-- Records that cover each input once and hold for it are collected to one list, in whatever order
and over whatever link they come, the first one with the approval and the others one for each
request: a signature for each input, in the order of the inputs. -/
theorem collect_unordered {system : SignatureSystem} {tx : Transaction} {keys : List (Block 33)}
    {records : List TxSignature}
    (hcover : (records.map fun r => r.inputIndex.toNat).Perm (List.range tx.inputs.length))
    (hholds : ∀ r ∈ records, r.signed.Holds system tx keys) :
    ∃ sigs : List InputSignature, sigs.Perm (records.map TxSignature.signed) ∧
      sigs.map (fun x => x.inputIndex.toNat) = List.range tx.inputs.length ∧
      ∀ (τ : Type) [Transport τ] (link link' : τ) (limit : Nat) (first : TxSignature)
        (emitted rest : List TxSignature), emitted.Perm records →
        TxSignature.handOut emitted = first :: rest → Emits link rest link' →
        ∃ stream, (Completion.transaction system tx keys limit).finish first.layout = .ok stream ∧
          stream.collect.run.run link = (some (.ok sigs), link') := by
  have hindex : ∀ l : List TxSignature, (l.map TxSignature.signed).map (fun x => x.inputIndex.toNat)
      = l.map fun r => r.inputIndex.toNat := fun l => List.map_map
  refine ⟨(records.map TxSignature.signed).mergeSort fun a b => a.inputIndex ≤ b.inputIndex,
    List.mergeSort_perm _ _, map_mergeSort (by rwa [hindex]), ?_⟩
  intro τ _ link link' limit first emitted rest hperm hout hemits
  obtain _ | ⟨q, queue⟩ := emitted
  · cases hout
  obtain ⟨rfl, rfl⟩ := List.cons.inj hout
  -- as they are handed out the records differ from the given ones in order and in a mark only
  have hsigned := hperm.map TxSignature.signed
  have hplaces : (((q :: queue).map TxSignature.signed).map fun x => x.inputIndex.toNat).Perm
      (List.range tx.inputs.length) := by
    rw [hindex]
    exact (hperm.map _).trans hcover
  have hnodup := hplaces.nodup_iff.2 List.nodup_range
  have hcount : queue.length + 1 = tx.inputs.length := by simpa using hplaces.length_eq
  have hpass : ∀ r ∈ TxSignature.handOut (q :: queue),
      (ofFirst system tx keys limit { q with hasMore := !queue.isEmpty }).Passes r := by
    intro r hr
    have hmem : r.signed ∈ (q :: queue).map TxSignature.signed := by
      rw [← TxSignature.map_signed_handOut]
      exact List.mem_map_of_mem hr
    obtain ⟨r', hr', hsame⟩ := List.mem_map.1 (hsigned.mem_iff.1 hmem)
    refine passes_ofFirst ?_ (hsame ▸ hholds r' hr')
    exact List.mem_range.1 (hplaces.mem_iff.1 (List.mem_map_of_mem hmem))
  have hfresh : ((TxSignature.handOut (q :: queue)).map fun r => r.inputIndex.toNat).Nodup := by
    rwa [← hindex, TxSignature.map_signed_handOut]
  refine ⟨_, bind_eq_ok.2 ⟨_, by rw [TxSignature.decode_layout]; rfl, rfl⟩, ?_⟩
  rw [run_collect_emits hemits hcount hfresh hpass, mergeSort_eq_of_perm hsigned hnodup]

namespace EmissionExample

open CollectExample (input key)

def tx : Transaction :=
  .ofInBounds 1 [input 0, input 1, input 2] [⟨29000, [0x54], by decide⟩] none

def digest (i : Nat) : Block 32 := (tx.sighash i (key i) .schnorr).toOption.getD (Block.zero 32)

def record (i : Nat) : TxSignature :=
  ⟨false, UInt8.ofNat i, .schnorr, (key i).xOnly.bytes ++ (digest i).bytes,
    by simp [Block.length_bytes, maxSignature], 0, digest i⟩

/-- Answers with these records and then with nothing. -/
def link (records : List TxSignature) : ScriptedLink :=
  ⟨records.map fun r => .onReceive (.answer (Answer.mk r.layout StatusWord.ok.code).layout)⟩

theorem emits_link (records : List TxSignature) :
    SignatureStream.Emits (link records) records (link []) := by
  induction records with
  | nil => exact .nil _
  | cons r records ih => exact .cons rfl rfl ih

theorem holds_record {i : Nat} (hi : i < 3) :
    (record i).signed.Holds CollectExample.system tx [key 0, key 1, key 2] := by
  have hverify : ∀ j, CollectExample.system.verify .schnorr (key j) (record j).signature
      (digest j) = true := by
    intro j
    simp [SignatureSystem.verify, CollectExample.system, record]
  obtain rfl | rfl | rfl : i = 0 ∨ i = 1 ∨ i = 2 := by omega
  · exact ⟨key 0, rfl, rfl, hverify 0⟩
  · exact ⟨key 1, rfl, rfl, hverify 1⟩
  · exact ⟨key 2, rfl, rfl, hverify 2⟩

end EmissionExample

open EmissionExample in
open CollectExample (key system) in
theorem collect_unordered_rotated :
    ([record 0, record 1, record 2].map fun r => r.inputIndex.toNat).Perm
      (List.range tx.inputs.length) ∧
    (∀ r ∈ [record 0, record 1, record 2], r.signed.Holds system tx [key 0, key 1, key 2]) ∧
    ∃ sigs stream stream' link' link'',
      (Completion.transaction system tx [key 0, key 1, key 2] 9).finish
        { record 0 with hasMore := true }.layout = .ok stream ∧
      stream.collect.run.run (link [{ record 1 with hasMore := true }, record 2]) =
        (some (.ok sigs), link') ∧
      (Completion.transaction system tx [key 0, key 1, key 2] 9).finish
        { record 2 with hasMore := true }.layout = .ok stream' ∧
      stream'.collect.run.run (link [{ record 0 with hasMore := true }, record 1]) =
        (some (.ok sigs), link'') := by
  have hcover : ([record 0, record 1, record 2].map fun r => r.inputIndex.toNat).Perm
      (List.range tx.inputs.length) := List.Perm.refl [0, 1, 2]
  have hholds : ∀ r ∈ [record 0, record 1, record 2],
      r.signed.Holds system tx [key 0, key 1, key 2] := by
    intro r hr
    obtain rfl | rfl | rfl : r = record 0 ∨ r = record 1 ∨ r = record 2 := by simpa using hr
    · exact holds_record (i := 0) (by decide)
    · exact holds_record (i := 1) (by decide)
    · exact holds_record (i := 2) (by decide)
  obtain ⟨sigs, -, -, hcollect⟩ := collect_unordered hcover hholds
  have hrotated : ([record 2] ++ [record 0, record 1]).Perm ([record 0, record 1] ++ [record 2]) :=
    List.perm_append_comm
  obtain ⟨stream, hfinish, hrun⟩ := hcollect _ _ _ 9 _ _ _ (.refl _) rfl (emits_link _)
  obtain ⟨stream', hfinish', hrun'⟩ := hcollect _ _ _ 9 _ _ _ hrotated rfl (emits_link _)
  exact ⟨hcover, hholds, sigs, stream, stream', _, _, hfinish, hrun, hfinish', hrun'⟩

end HardwareSigner
