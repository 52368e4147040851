import Mathlib.Data.List.Sort
import Mathlib.Data.List.Perm.Subperm
import Mathlib.Data.List.Nodup
import HardwareSigner.Client.Handle
import HardwareSigner.Link.Scripted
import HardwareSigner.Proofs.Client.Ends
import HardwareSigner.Proofs.Client.Runs

/-! What the signatures that a wallet collects are good for. The device is not trusted: it may name
any input, repeat one, promise more than it has or stop early, and it may change schemes on the way.
Whatever it answers, a collection that succeeds has one signature per input, in order, and each one
holds for its input. -/

namespace HardwareSigner

/-- The signature is over the hash of the input that it names, by the key of that input. -/
def InputSignature.Holds (system : SignatureSystem) (tx : Transaction) (keys : List (Block 33))
    (x : InputSignature) : Prop :=
  ∃ key, keys[x.inputIndex.toNat]? = some key ∧
    tx.sighash x.inputIndex.toNat key x.scheme = .ok x.sighash ∧
    system.verify x.scheme key x.signature x.sighash = true

namespace SignatureStream

variable {s t : SignatureStream} {r : TxSignature} {x : InputSignature}

theorem keyOf_ok {i : UInt8} {key : Block 33} (h : s.keyOf i = .ok key) :
    s.seen[i.toNat]? = some false ∧ s.keys[i.toNat]? = some key := by
  unfold keyOf at h
  split at h
  · rename_i k hseen hkey
    cases h
    exact ⟨hseen, hkey⟩
  · cases h
  · cases h

theorem inspect_ok {key : Block 33} (h : s.inspect r key = .ok x) :
    x.inputIndex = r.inputIndex ∧ s.tx.sighash x.inputIndex.toNat key x.scheme = .ok x.sighash ∧
      s.system.verify x.scheme key x.signature x.sighash = true := by
  obtain ⟨hash, hhash, h⟩ := bind_eq_ok.1 h
  by_cases hsame : hash = r.sighash
  · by_cases hv : s.system.verify r.scheme key r.signature hash = true
    · rw [if_neg (by simpa using hsame), if_neg (by simpa using hv)] at h
      cases h
      exact ⟨rfl, hhash, hv⟩
    · rw [if_neg (by simpa using hsame), if_pos (by simpa using hv)] at h
      cases h
  · rw [if_pos hsame] at h
    cases h

theorem check_ok (h : s.check r = .ok x) :
    x.inputIndex = r.inputIndex ∧ s.seen[x.inputIndex.toNat]? = some false ∧
      x.Holds s.system s.tx s.keys := by
  obtain ⟨key, hkey, h⟩ := bind_eq_ok.1 h
  obtain ⟨hseen, hkey⟩ := keyOf_ok hkey
  obtain ⟨hindex, hhash, hv⟩ := inspect_ok h
  rw [← hindex] at hseen hkey
  exact ⟨hindex, hseen, key, hkey, hhash, hv⟩

/-- What a signature that is handed on makes of the sequence. -/
structure Takes (s : SignatureStream) (x : InputSignature) (t : SignatureStream) : Prop where
  holds : x.Holds s.system s.tx s.keys
  fresh : s.seen[x.inputIndex.toNat]? = some false
  seen : t.seen = s.seen.set x.inputIndex.toNat true
  received : t.received = s.received + 1
  pending : t.pending = none
  system : t.system = s.system
  tx : t.tx = s.tx
  keys : t.keys = s.keys

def Steps (s : SignatureStream) :
    Option (Except ClientError InputSignature) × SignatureStream → Prop
  | (none, t) => s.finished = true ∧ t = s
  | (some (.error _), t) => t.finished = true ∧ t.seen = s.seen ∧ t.received = s.received
  | (some (.ok x), t) => s.Takes x t

theorem advance_steps (s : SignatureStream) (r : Except ClientError TxSignature)
    (hp : s.pending = none) : s.Steps (some (s.advance r).1, (s.advance r).2) := by
  cases r with
  | error e => exact ⟨rfl, rfl, rfl⟩
  | ok r =>
    cases h : s.check r with
    | error e =>
      rw [show s.advance (.ok r) = (.error e, { s with finished := true }) by rw [advance, h]]
      exact ⟨rfl, rfl, rfl⟩
    | ok x =>
      obtain ⟨hindex, hfresh, hholds⟩ := check_ok h
      rw [show s.advance (.ok r) = (.ok x, s.accept r) by rw [advance, h]]
      exact ⟨hholds, hfresh, by rw [hindex]; rfl, rfl, hp, rfl, rfl, rfl⟩

theorem next_steps (s : SignatureStream) : s.next.Always s.Steps := by
  unfold next
  split
  · exact ⟨by assumption, rfl⟩
  split
  · rename_i r hr
    have h := advance_steps { s with pending := none } (.ok r) rfl
    -- the answer that was pending is no part of what is kept track of
    revert h
    generalize ({ s with pending := none } : SignatureStream).advance (.ok r) = y
    rcases y with ⟨e | x, t⟩
    · exact id
    · rintro ⟨h1, h2, h3, h4, h5, h6, h7, h8⟩
      exact ⟨h1, h2, h3, h4, h5, h6, h7, h8⟩
  · rename_i hp
    rw [Program.always_bind]
    exact s.fetch.run.always_true.mono fun r _ => advance_steps s r hp

theorem fetch_due (s : SignatureStream) :
    Exchange.Yields (fun _ => s.received < s.expected) s.fetch := by
  unfold fetch
  by_cases h : s.expected ≤ s.received
  · rw [if_pos h]
    exact (Exchange.yields_throw (P := fun _ => False) _).bind fun _ h => h.elim
  · exact (Program.always_true _).mono fun _ _ _ _ => Nat.lt_of_not_le h

/-- A signature that has to be asked for is one that is missing. -/
theorem next_due (hp : s.pending = none) :
    s.next.Always fun r => ∀ x t, r = (some (.ok x), t) → s.received < s.expected := by
  unfold next
  split
  · rintro x t ⟨⟩
  rw [hp, Program.always_bind]
  refine s.fetch_due.mono ?_
  rintro (e | r) h
  · rintro x t ⟨⟩
  · exact fun _ _ _ => h r rfl

def nextFrame : Frame := ⟨appClass, 0x06, 0x03, 0x00, [], by decide⟩

theorem ofStep_nextSignature :
    Frame.ofStep NextSignatureQuery.mk .nextSignature .last = .ok nextFrame := rfl

theorem check_eq_ok (key : Block 33) (hseen : s.seen[r.inputIndex.toNat]? = some false)
    (hkey : s.keys[r.inputIndex.toNat]? = some key)
    (hhash : s.tx.sighash r.inputIndex.toNat key r.scheme = .ok r.sighash)
    (hverify : s.system.verify r.scheme key r.signature r.sighash = true) :
    s.check r = .ok ⟨r.inputIndex, r.scheme, r.signature, r.recoveryId, r.sighash⟩ := by
  have hkeyOf : s.keyOf r.inputIndex = .ok key := by simp only [keyOf, hseen, hkey]
  refine bind_eq_ok.2 ⟨key, hkeyOf, bind_eq_ok.2 ⟨r.sighash, hhash, ?_⟩⟩
  rw [if_neg (by simp), if_neg (by simp [hverify])]
  rfl

theorem next_of_pending (hf : s.finished = false) (hp : s.pending = some r)
    (hc : s.check r = .ok x) :
    s.next = .done (some (.ok x), { s with pending := none }.accept r) := by
  have hadvance : ({ s with pending := none } : SignatureStream).advance (.ok r) =
      (.ok x, { s with pending := none }.accept r) := by
    rw [advance, show ({ s with pending := none } : SignatureStream).check r = .ok x from hc]
  unfold next
  rw [if_neg (by simp [hf]), hp]
  simp only [hadvance]

theorem run_fetch {τ : Type} [Transport τ] {link link' link'' : τ}
    (hd : s.received < s.expected)
    (hsubmit : Transport.submit link nextFrame.layout = (.accepted, link'))
    (hreceive : Transport.receive link' =
      (.answer (Answer.mk r.layout StatusWord.ok.code).layout, link'')) :
    s.fetch.run.run link = (some (.ok r), link'') := by
  unfold fetch
  rw [if_neg (Nat.not_le.2 hd), ofStep_nextSignature]
  have hrequest := Exchange.run_request s.requestTimeout hsubmit hreceive
  refine (Exchange.run_bind (Exchange.run_lift (.ok nextFrame) link) _).trans ?_
  rw [Exchange.run_bind hrequest, TxSignature.decode_layout]
  rfl

theorem run_next {τ : Type} [Transport τ] {link link' link'' : τ} (hf : s.finished = false)
    (hp : s.pending = none) (hd : s.received < s.expected)
    (hsubmit : Transport.submit link nextFrame.layout = (.accepted, link'))
    (hreceive : Transport.receive link' =
      (.answer (Answer.mk r.layout StatusWord.ok.code).layout, link''))
    (hc : s.check r = .ok x) : s.next.run link = (some (some (.ok x), s.accept r), link'') := by
  have hadvance : s.advance (.ok r) = (.ok x, s.accept r) := by rw [advance, hc]
  unfold next
  rw [if_neg (by simp [hf]), hp]
  simp only [Program.run_bind, run_fetch hd hsubmit hreceive, hadvance, Program.run]

/-- Signatures gathered from here on: each for an input that had none, no two for one input. -/
structure Gathers (s : SignatureStream) (xs : List InputSignature) : Prop where
  holds : ∀ x ∈ xs, x.Holds s.system s.tx s.keys
  fresh : ∀ x ∈ xs, s.seen[x.inputIndex.toNat]? = some false
  nodup : (xs.map fun x => x.inputIndex.toNat).Nodup

theorem gathers_nil (s : SignatureStream) : s.Gathers [] := ⟨by simp, by simp, by simp⟩

theorem Takes.gathers {xs : List InputSignature} (h : s.Takes x t) (hxs : t.Gathers xs) :
    s.Gathers (x :: xs) := by
  -- an input that is still free after the step is another one than that of the step
  have hother : ∀ y ∈ xs, x.inputIndex.toNat ≠ y.inputIndex.toNat ∧
      s.seen[y.inputIndex.toNat]? = some false := by
    intro y hy
    have hfree := hxs.fresh y hy
    rw [h.seen, List.getElem?_set] at hfree
    split at hfree
    · split at hfree <;> cases hfree
    · exact ⟨by assumption, hfree⟩
  refine ⟨?_, ?_, ?_⟩
  · intro y hy
    rcases List.mem_cons.1 hy with rfl | hy
    · exact h.holds
    · have := hxs.holds y hy
      rwa [h.system, h.tx, h.keys] at this
  · intro y hy
    rcases List.mem_cons.1 hy with rfl | hy
    · exact h.fresh
    · exact (hother y hy).2
  · rw [List.map_cons, List.nodup_cons]
    refine ⟨?_, hxs.nodup⟩
    rw [List.mem_map]
    rintro ⟨y, hy, heq⟩
    exact (hother y hy).1 heq.symm

theorem gather_gathers (fuel : Nat) (s : SignatureStream) :
    Exchange.Yields s.Gathers (gather fuel s) := by
  induction fuel generalizing s with
  | zero => exact Exchange.yields_pure s.gathers_nil
  | succ fuel ih =>
    refine (Exchange.yields_lift s.next_steps).bind ?_
    rintro ⟨_ | _ | x, t⟩ h
    · exact Exchange.yields_pure s.gathers_nil
    · exact Exchange.yields_throw _
    · exact (ih t).bind fun xs hxs => Exchange.yields_pure (Takes.gathers h hxs)

def callsLeft (s : SignatureStream) : Nat :=
  s.expected - s.received + (if s.pending.isSome then 2 else 1)

/-- The bound on the calls is never what ends a sequence. -/
theorem gather_eq {fuel : Nat} (h : s.callsLeft ≤ fuel) : gather (fuel + 1) s = gather fuel s := by
  induction fuel generalizing s with
  | zero => unfold callsLeft at h; split at h <;> omega
  | succ fuel ih =>
    have hnext : s.next.Always fun r => s.Steps r ∧
        ∀ x t, r = (some (.ok x), t) → s.pending = none → s.received < s.expected := by
      by_cases hp : s.pending = none
      · exact s.next_steps.and ((next_due hp).mono fun r hr x t he _ => hr x t he)
      · exact s.next_steps.mono fun r hr => ⟨hr, fun _ _ _ hn => absurd hn hp⟩
    refine Exchange.bind_congr (Exchange.yields_lift hnext) ?_
    rintro ⟨_ | _ | x, t⟩ ⟨hstep, hdue⟩
    · rfl
    · rfl
    · have hstep : s.Takes x t := hstep
      have hcalls : t.callsLeft ≤ fuel := by
        have hexpected : t.expected = s.expected := by simp [expected, hstep.seen]
        have hdue := hdue x t rfl
        simp only [callsLeft, hexpected, hstep.received, hstep.pending] at h ⊢
        cases hp : s.pending with
        | none => rw [hp] at h; simp at h ⊢; have := hdue hp; omega
        | some r => rw [hp] at h; simp at h ⊢; omega
      exact congrArg (· >>= fun rest => pure (x :: rest)) (ih hcalls)

/-- From the first answer on, a bound higher than that of the collection makes no difference. -/
theorem gather_ofFirst {system : SignatureSystem} {tx : Transaction} {keys : List (Block 33)}
    {limit fuel : Nat} {first : TxSignature} (h : tx.inputs.length + 2 ≤ fuel) :
    gather fuel (ofFirst system tx keys limit first) =
      gather (tx.inputs.length + 2) (ofFirst system tx keys limit first) := by
  induction fuel, h using Nat.le_induction with
  | base => rfl
  | succ n hn ih =>
    rw [← ih]
    exact gather_eq (by simpa [callsLeft, expected, ofFirst] using hn)

/-- Places without repetition and below their own number are all the places there are. -/
theorem perm_range_of_nodup {l : List Nat} (hn : l.Nodup) (hb : ∀ n ∈ l, n < l.length) :
    l.Perm (List.range l.length) :=
  (hn.subperm fun n hn => List.mem_range.2 (hb n hn)).perm_of_length_le (by simp)

theorem pairwise_mergeSort (xs : List InputSignature) :
    (xs.mergeSort fun a b => a.inputIndex ≤ b.inputIndex).Pairwise fun a b =>
      a.inputIndex ≤ b.inputIndex := by
  have hpair : (xs.mergeSort fun a b => a.inputIndex ≤ b.inputIndex).Pairwise fun a b =>
      (a.inputIndex ≤ b.inputIndex : Bool) := by
    refine List.pairwise_mergeSort ?_ ?_ xs
    · intro a b c hab hbc
      exact decide_eq_true (UInt8.le_trans (of_decide_eq_true hab) (of_decide_eq_true hbc))
    · intro a b
      simpa using UInt8.le_total a.inputIndex b.inputIndex
  exact hpair.imp of_decide_eq_true

theorem map_mergeSort {xs : List InputSignature} {n : Nat}
    (h : (xs.map fun x => x.inputIndex.toNat).Perm (List.range n)) :
    (xs.mergeSort fun a b => a.inputIndex ≤ b.inputIndex).map (fun x => x.inputIndex.toNat) =
      List.range n := by
  have hperm := List.mergeSort_perm xs fun a b => a.inputIndex ≤ b.inputIndex
  refine ((hperm.map _).trans h).eq_of_pairwise' (List.pairwise_map.2 ?_) List.pairwise_le_range
  exact (pairwise_mergeSort xs).imp UInt8.le_iff_toNat_le.1

theorem inputIndex_of_map_eq {xs : List InputSignature} {n : Nat}
    (h : xs.map (fun x => x.inputIndex.toNat) = List.range n) (i : Nat) (hi : i < xs.length) :
    xs[i].inputIndex.toNat = i := by
  have hplace := List.getElem_of_eq h (by simpa using hi)
  simpa using hplace

/-- One signature per input, each in its place. -/
def Complete (s : SignatureStream) (xs : List InputSignature) : Prop :=
  xs.length = s.expected ∧ ∀ i (hi : i < xs.length),
    xs[i].inputIndex.toNat = i ∧ xs[i].Holds s.system s.tx s.keys

theorem Gathers.complete {xs : List InputSignature} (h : s.Gathers xs)
    (hl : xs.length = s.expected) :
    s.Complete (xs.mergeSort fun a b => a.inputIndex ≤ b.inputIndex) := by
  have hperm := List.mergeSort_perm xs fun a b => a.inputIndex ≤ b.inputIndex
  have hbelow : ∀ n ∈ xs.map (fun x => x.inputIndex.toNat),
      n < (xs.map fun x => x.inputIndex.toNat).length := by
    intro n hn
    obtain ⟨x, hx, rfl⟩ := List.mem_map.1 hn
    rw [List.length_map, hl]
    exact (List.getElem?_eq_some_iff.1 (h.fresh x hx)).1
  have hplaces := map_mergeSort (perm_range_of_nodup h.nodup hbelow)
  refine ⟨hperm.length_eq.trans hl, fun i hi => ⟨inputIndex_of_map_eq hplaces i hi, ?_⟩⟩
  exact h.holds _ (hperm.mem_iff.1 (List.getElem_mem hi))

theorem collect_complete (s : SignatureStream) : Exchange.Yields s.Complete s.collect := by
  refine Exchange.Yields.releasing ((gather_gathers _ s).bind ?_)
  intro xs hxs
  by_cases hl : xs.length = s.expected
  · rw [if_neg (not_not.2 hl)]
    exact Exchange.yields_pure (hxs.complete hl)
  · rw [if_pos hl]
    exact (Exchange.yields_throw (P := fun _ => False) _).bind fun _ h => h.elim

end SignatureStream

namespace SignatureStream

variable {τ : Type} [Transport τ] {link link' link'' : τ} {s t : SignatureStream}
  {x : InputSignature} {xs : List InputSignature}

theorem run_gather_done (fuel : Nat) (hf : s.finished = true) (link : τ) :
    (gather (fuel + 1) s).run.run link = (some (.ok []), link) := by
  have hnext : s.next.run link = (some (none, s), link) := by
    unfold next
    rw [if_pos hf]
    rfl
  exact Exchange.run_bind (Exchange.run_program hnext) _

theorem run_gather_next (fuel : Nat) (hnext : s.next.run link = (some (some (.ok x), t), link'))
    (hrest : (gather fuel t).run.run link' = (some (.ok xs), link'')) :
    (gather (fuel + 1) s).run.run link = (some (.ok (x :: xs)), link'') := by
  refine (Exchange.run_bind (Exchange.run_program hnext) _).trans ?_
  exact Exchange.run_bind hrest _

theorem run_collect (hgather : (gather (s.expected + 2) s).run.run link = (some (.ok xs), link'))
    (hl : xs.length = s.expected) :
    s.collect.run.run link =
      (some (.ok (xs.mergeSort fun a b => a.inputIndex ≤ b.inputIndex)), link') := by
  refine (Exchange.run_releasing _ _).trans ((Exchange.run_bind hgather _).trans ?_)
  rw [if_neg (not_not.2 hl)]
  rfl

theorem gather_of_collect {sigs : List InputSignature}
    (h : s.collect.run.run link = (some (.ok sigs), link')) :
    ∃ xs, (gather (s.expected + 2) s).run.run link = (some (.ok xs), link') ∧ sigs.Perm xs := by
  unfold collect at h
  rw [Exchange.run_releasing] at h
  obtain ⟨xs, _, hgather, hsorted⟩ := Exchange.run_bind_eq_ok h
  split at hsorted
  · cases hsorted
  · cases hsorted
    exact ⟨xs, hgather, List.mergeSort_perm _ _⟩

end SignatureStream

/-- Whatever stands behind the link, what a wallet collects after an approval is one signature per
input, in the order of the inputs, each over the hash of its input and by the key of that input.
More calls than the collection makes would give the same signatures. -/
theorem collect_sound {τ : Type} [Transport τ] {link link' : τ} {system : SignatureSystem}
    {tx : Transaction} {keys : List (Block 33)} {limit : Nat} {first : Bytes}
    {stream : SignatureStream} {sigs : List InputSignature}
    (hfinish : (Completion.transaction system tx keys limit).finish first = .ok stream)
    (hcollect : stream.collect.run.run link = (some (.ok sigs), link')) :
    sigs.length = tx.inputs.length ∧
      (∀ i (hi : i < sigs.length), sigs[i].inputIndex.toNat = i ∧
        ∃ key, keys[i]? = some key ∧ tx.sighash i key sigs[i].scheme = .ok sigs[i].sighash ∧
          system.verify sigs[i].scheme key sigs[i].signature sigs[i].sighash = true) ∧
      ∀ calls, tx.inputs.length + 2 ≤ calls → ∃ given, sigs.Perm given ∧
        (SignatureStream.gather calls stream).run.run link = (some (.ok given), link') := by
  obtain ⟨⟨r, n⟩, -, hstream⟩ := bind_eq_ok.1 hfinish
  cases hstream
  have hexpected :
      (SignatureStream.ofFirst system tx keys limit r).expected = tx.inputs.length := by
    simp [SignatureStream.expected, SignatureStream.ofFirst]
  obtain ⟨hlen, hsigs⟩ := (SignatureStream.collect_complete _).run hcollect
  obtain ⟨given, hgiven, hperm⟩ := SignatureStream.gather_of_collect hcollect
  rw [hexpected] at hlen hgiven
  refine ⟨hlen, fun i hi => ?_, fun calls hcalls => ⟨given, hperm, ?_⟩⟩
  · obtain ⟨hindex, key, hkey, hhash, hverify⟩ := hsigs i hi
    rw [hindex] at hkey hhash
    exact ⟨hindex, key, hkey, hhash, hverify⟩
  · rw [SignatureStream.gather_ofFirst hcalls]
    exact hgiven

namespace CollectExample

/-- A signature that shows its key and digest openly, which is enough to tell them apart. -/
def system : SignatureSystem where
  publicKey k := ⟨0x04 :: (k.bytes.bytes ++ k.bytes.bytes), by simp [k.bytes.length_bytes]⟩
  sign k digest :=
    ⟨k.bytes.bytes ++ digest.bytes, by simp [k.bytes.length_bytes, digest.length_bytes]⟩
  verifySchnorr key signature digest := signature = key.bytes ++ digest.bytes
  verifyEcdsa key signature digest := signature = key.bytes ++ digest.bytes

def input (i : UInt32) : TransactionInput := ⟨10000, Block.zero 32, 0, i, i, none⟩

def tx : Transaction := .ofInBounds 0 [input 0, input 1] [⟨1000, [0x51], by decide⟩] none

def key (i : Nat) : Block 33 := Block.ofNatBE 33 i

def digest (i : Nat) : Block 32 := (tx.sighash i (key i) .schnorr).toOption.getD (Block.zero 32)

/-- What an honest device answers for an input. -/
def answer (more : Bool) (i : Nat) : TxSignature :=
  ⟨more, UInt8.ofNat i, .schnorr, (key i).xOnly.bytes ++ (digest i).bytes,
    by simp [Block.length_bytes, maxSignature], 0, digest i⟩

theorem verify_answer (more : Bool) (i : Nat) :
    system.verify .schnorr (key i) (answer more i).signature (answer more i).sighash = true := by
  simp [SignatureSystem.verify, system, answer]

/-- The first input comes last. -/
def link : ScriptedLink :=
  ⟨[.onReceive (.answer (Answer.mk (answer false 0).layout StatusWord.ok.code).layout)]⟩

end CollectExample

open CollectExample in
theorem collect_sound_reversed : ∃ stream sigs link',
    (Completion.transaction system tx [key 0, key 1] 2000).finish (answer true 1).layout =
      .ok stream ∧
    stream.collect.run.run link = (some (.ok sigs), link') ∧
    sigs.length = 2 ∧ ∀ i (hi : i < sigs.length), sigs[i].inputIndex.toNat = i ∧
      ∃ k, [key 0, key 1][i]? = some k ∧ tx.sighash i k sigs[i].scheme = .ok sigs[i].sighash ∧
        system.verify sigs[i].scheme k sigs[i].signature sigs[i].sighash = true := by
  have hfinish :
      (Completion.transaction system tx [key 0, key 1] 2000).finish (answer true 1).layout =
        .ok (.ofFirst system tx [key 0, key 1] 2000 (answer true 1)) :=
    bind_eq_ok.2 ⟨_, by rw [TxSignature.decode_layout]; rfl, rfl⟩
  set stream := SignatureStream.ofFirst system tx [key 0, key 1] 2000 (answer true 1)
  set after := ({ stream with pending := none } : SignatureStream).accept (answer true 1)
  have hfirst : stream.check (answer true 1) = .ok _ := SignatureStream.check_eq_ok (key 1)
    rfl rfl rfl (verify_answer true 1)
  have hsecond : after.check (answer false 0) = .ok _ := SignatureStream.check_eq_ok (key 0)
    rfl rfl rfl (verify_answer false 0)
  have hsubmit : Transport.submit link SignatureStream.nextFrame.layout = (.accepted, link) := rfl
  have hlast := SignatureStream.run_gather_next 2
    (SignatureStream.run_next rfl rfl (by decide) hsubmit rfl hsecond)
    (SignatureStream.run_gather_done _ rfl _)
  have hgather := SignatureStream.run_gather_next 3
    (congrArg (Program.run · link) (SignatureStream.next_of_pending rfl rfl hfirst)) hlast
  have hcollect := SignatureStream.run_collect hgather rfl
  obtain ⟨hlen, hsigs, -⟩ := collect_sound hfinish hcollect
  exact ⟨_, _, _, hfinish, hcollect, hlen, hsigs⟩

end HardwareSigner
