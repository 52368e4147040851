import HardwareSigner.Link.Wiretap
import HardwareSigner.Proofs.Client.Collection

/-! How much a wallet asks of a device once a transaction is approved. The first signature comes
with the approval and each further one takes a request, so there is a request less than there are
inputs, whatever the device answers; an error, or a signature that says it is the last, ends the
sequence for good. -/

namespace HardwareSigner

theorem Wiretap.sent_receive {τ : Type} [Transport τ] (w : Wiretap τ) :
    (Transport.receive w).2.sent = w.sent := by
  rcases hr : Transport.receive w.link with ⟨r, link⟩
  cases r <;> simp only [Transport.receive, hr]

namespace Program

variable {α β : Type} {fs : List Bytes}

/-- The program hands over these frames, in this order and no others, and every wait of it has a
bound, however the link reacts. -/
def Sends : List Bytes → Program α → Prop
  | fs, done _ => fs = []
  | fs, acquire next => next.Sends fs
  | fs, release next => next.Sends fs
  | fs, submit _ apdu next => ∃ rest, fs = apdu :: rest ∧ ∀ r, (next r).Sends rest
  | fs, receive limit next => limit ≠ none ∧ ∀ r, (next r).Sends fs

theorem Sends.bind {p : Program α} {f : α → Program β} (hp : p.Sends fs)
    (hf : ∀ a, (f a).Sends []) : (p.bind f).Sends fs := by
  induction p generalizing fs with
  | done a =>
    obtain rfl : fs = [] := hp
    exact hf a
  | acquire next ih => exact ih hp
  | release next ih => exact ih hp
  | submit limit apdu next ih =>
    obtain ⟨rest, rfl, hrest⟩ := hp
    exact ⟨rest, rfl, fun r => ih r (hrest r)⟩
  | receive limit next ih => exact ⟨hp.1, fun r => ih r (hp.2 r)⟩

theorem Sends.run {τ : Type} [Transport τ] {p : Program α} (hp : p.Sends fs) (w : Wiretap τ) :
    ∃ a w', p.run w = (some a, w') ∧ w'.sent = w.sent ++ fs := by
  induction p generalizing fs w with
  | done a =>
    obtain rfl : fs = [] := hp
    exact ⟨a, w, rfl, (List.append_nil _).symm⟩
  | acquire next ih => exact ih hp w
  | release next ih => exact ih hp w
  | submit limit apdu next ih =>
    obtain ⟨rest, rfl, hrest⟩ := hp
    obtain ⟨a, w', hrun, hsent⟩ := ih _ (hrest _) (Transport.submit w apdu).2
    refine ⟨a, w', hrun, hsent.trans ?_⟩
    exact (List.append_cons w.sent apdu rest).symm
  | receive limit next ih =>
    obtain ⟨a, w', hrun, hsent⟩ := ih _ (hp.2 _) (Transport.receive w).2
    refine ⟨a, w', ?_, hsent.trans (by rw [w.sent_receive])⟩
    simp only [Program.run]
    rw [if_neg fun h => hp.1 h.2]
    exact hrun

end Program

namespace Exchange

variable {α β : Type} {fs : List Bytes}

def Sends (fs : List Bytes) (p : Exchange α) : Prop := p.run.Sends fs

theorem sends_lift (r : Except ClientError α) : Sends [] (lift r) := rfl

theorem Sends.bind {p : Exchange α} {f : α → Exchange β} (hp : Sends fs p)
    (hf : ∀ a, Sends [] (f a)) : Sends fs (p >>= f) := by
  refine Program.Sends.bind hp ?_
  rintro (e | a)
  · rfl
  · exact hf a

theorem sends_submit (limit : Nat) (f : Frame) : Sends [f.layout] (submit limit f) := by
  refine ⟨[], rfl, ?_⟩
  rintro (_ | e | _) <;> rfl

theorem sends_receive (limit : Nat) (late : ClientError) :
    Sends [] (receive (some limit) late) := by
  refine ⟨Option.some_ne_none limit, ?_⟩
  rintro (raw | e | _) <;> rfl

theorem sends_request (limit : Nat) (f : Frame) : Sends [f.layout] (request limit f) := by
  have hanswer : Sends [f.layout] (answer limit f) := (sends_submit limit f).bind fun _ =>
    (sends_receive limit _).bind fun _ => sends_lift _
  exact hanswer.bind fun a => (sends_lift _).bind fun _ => sends_lift (.ok a.data)

end Exchange

namespace SignatureStream

variable {s t : SignatureStream} {x : Option (Except ClientError InputSignature)}

/-- What a call looks at: the answer that is there, or else one that it asks for. -/
def response (s : SignatureStream) : Exchange TxSignature :=
  match s.pending with
  | some r => pure r
  | none => s.fetch

def requests (s : SignatureStream) : List Bytes :=
  if s.pending = none ∧ s.received < s.expected then [nextFrame.layout] else []

theorem response_of_pending {r : TxSignature} (hp : s.pending = some r) :
    s.response = pure r := by
  rw [response, hp]

theorem response_of_none (hp : s.pending = none) : s.response = s.fetch := by
  rw [response, hp]

theorem response_sends (s : SignatureStream) : Exchange.Sends s.requests s.response := by
  unfold requests
  cases hp : s.pending with
  | some r =>
    rw [response_of_pending hp, if_neg (by simp)]
    exact Exchange.sends_lift (.ok r)
  | none =>
    rw [response_of_none hp]
    unfold fetch
    by_cases hd : s.received < s.expected
    · rw [if_pos ⟨rfl, hd⟩, if_neg (Nat.not_le.2 hd), ofStep_nextSignature]
      exact (Exchange.sends_request s.requestTimeout nextFrame).bind fun data =>
        (Exchange.sends_lift _).bind fun r => Exchange.sends_lift (.ok r.1)
    · rw [if_neg fun h => hd h.2, if_pos (Nat.le_of_not_lt hd)]
      exact Exchange.sends_lift (.error (.tooManySignatures s.expected))

section

variable {τ : Type} [Transport τ] {link link' : τ}

theorem run_next_finished (hf : s.finished = true) (link : τ) :
    s.next.run link = (some (none, s), link) := by
  unfold next
  rw [if_pos hf]
  rfl

/-- A call on a sequence that goes on judges what it looks at. -/
theorem run_next_response {r : Except ClientError TxSignature} (hf : s.finished = false)
    (hr : s.response.run.run link = (some r, link')) :
    s.next.run link = (some (some ({ s with pending := none }.advance r).1,
      ({ s with pending := none }.advance r).2), link') := by
  unfold next
  rw [if_neg (by simp [hf])]
  cases hp : s.pending with
  | some first =>
    rw [response_of_pending hp] at hr
    obtain ⟨hfirst, rfl⟩ := Prod.mk.inj hr
    obtain rfl := Option.some.inj hfirst
    rfl
  | none =>
    rw [response_of_none hp] at hr
    have hs : ({ s with pending := none } : SignatureStream) = s := by rw [← hp]
    simp only [Program.run_bind, hr, hs]
    rfl

theorem run_nextMany_finished (hf : s.finished = true) (n : Nat) (link : τ) :
    (nextMany n s).run link = (some (List.replicate n (none, s.received), s), link) := by
  induction n with
  | zero => rfl
  | succ n ih =>
    unfold nextMany
    rw [Program.run_bind, run_next_finished hf link]
    simp only [Program.run_bind, ih]
    rfl

/-- A device that has more than was due is not asked for it. -/
theorem run_next_tooMany (hp : s.pending = none) (hf : s.finished = false)
    (hd : s.received = s.expected) (link : τ) :
    s.next.run link =
      (some (some (.error (.tooManySignatures s.expected)), { s with finished := true }), link) := by
  have hresponse : s.response.run.run link =
      (some (.error (.tooManySignatures s.expected)), link) := by
    rw [response_of_none hp, fetch, if_pos (Nat.le_of_eq hd.symm)]
    rfl
  rw [run_next_response hf hresponse]
  simp only [advance, ← hp]

end

/-- What holds between two calls for a transaction with so many inputs. While the sequence goes on
there is a signature more than there were requests: the one that came with the approval. -/
structure Bounded {τ : Type} (inputs : Nat) (s : SignatureStream) (w : Wiretap τ) : Prop where
  expected_eq : s.expected = inputs
  count_seen : s.seen.count true = s.received
  frames : ∀ f ∈ w.sent, f = nextFrame.layout
  few : w.sent.length < inputs
  first : s.pending ≠ none → s.received = 0 ∧ w.sent = []
  going : s.pending = none → s.finished = false → w.sent.length + 1 = s.received

section

variable {τ : Type} {w w' : Wiretap τ} {inputs : Nat}

theorem Bounded.received_le (h : s.Bounded inputs w) : s.received ≤ inputs := by
  rw [← h.count_seen, ← h.expected_eq]
  exact List.count_le_length

/-- A request goes out only for a signature that is missing. -/
theorem Bounded.asked (h : s.Bounded inputs w) (hf : s.finished = false)
    (hsent : w'.sent = w.sent ++ s.requests) :
    (∀ f ∈ w'.sent, f = nextFrame.layout) ∧ w'.sent.length < inputs ∧
      (s.received < inputs → w'.sent.length = s.received) := by
  have hinputs := h.expected_eq
  have hfew := h.few
  unfold requests at hsent
  by_cases hp : s.pending = none
  · have hgoing := h.going hp hf
    by_cases hd : s.received < s.expected
    · rw [if_pos ⟨hp, hd⟩] at hsent
      rw [hsent]
      refine ⟨?_, ?_, fun _ => ?_⟩
      · rw [List.forall_mem_append, List.forall_mem_singleton]
        exact ⟨h.frames, rfl⟩
      · simp; omega
      · simpa using hgoing
    · rw [if_neg fun h => hd h.2, List.append_nil] at hsent
      rw [hsent]
      exact ⟨h.frames, hfew, fun hlt => absurd (hinputs ▸ hlt) hd⟩
  · obtain ⟨hzero, hnone⟩ := h.first hp
    rw [if_neg fun h => hp h.1, List.append_nil] at hsent
    rw [hsent]
    exact ⟨h.frames, hfew, fun _ => by rw [hnone, hzero]; rfl⟩

end

theorem count_true_set {l : List Bool} {i : Nat} (h : l[i]? = some false) :
    (l.set i true).count true = l.count true + 1 := by
  obtain ⟨hi, hfalse⟩ := List.getElem?_eq_some_iff.1 h
  simp [List.count_set, hi, hfalse]

section

variable {τ : Type} [Transport τ] {w w' : Wiretap τ} {inputs : Nat}

/-- All that a call can do: nothing on an ended sequence, and else it looks at an answer, which it
refuses and so ends the sequence, or takes. -/
inductive Call (s : SignatureStream) (w : Wiretap τ) :
    Option (Except ClientError InputSignature) → SignatureStream → Wiretap τ → Prop
  | ended (hf : s.finished = true) : Call s w none s w
  | refused {e : ClientError} {w' : Wiretap τ} (hf : s.finished = false)
      (hsent : w'.sent = w.sent ++ s.requests) :
      Call s w (some (.error e)) { s with pending := none, finished := true } w'
  | taken {r : TxSignature} {y : InputSignature} {w' : Wiretap τ} (hf : s.finished = false)
      (hsent : w'.sent = w.sent ++ s.requests)
      (hresponse : s.response.run.run w = (some (.ok r), w')) (hcheck : s.check r = .ok y) :
      Call s w (some (.ok y)) ({ s with pending := none }.accept r) w'

theorem run_next_call (s : SignatureStream) (w : Wiretap τ) :
    ∃ x t w', s.next.run w = (some (x, t), w') ∧ s.Call w x t w' := by
  cases hf : s.finished with
  | true => exact ⟨none, s, w, run_next_finished hf w, .ended hf⟩
  | false =>
    obtain ⟨r, w', hr, hsent⟩ := s.response_sends.run w
    refine ⟨_, _, w', run_next_response hf hr, ?_⟩
    rcases r with e | r
    · exact .refused hf hsent
    cases hcheck : s.check r with
    | error e =>
      have hadvance : ({ s with pending := none } : SignatureStream).advance (.ok r) =
          (.error e, { s with pending := none, finished := true }) := by
        rw [advance, show ({ s with pending := none } : SignatureStream).check r = _ from hcheck]
      rw [hadvance]
      exact .refused hf hsent
    | ok y =>
      have hadvance : ({ s with pending := none } : SignatureStream).advance (.ok r) =
          (.ok y, { s with pending := none }.accept r) := by
        rw [advance, show ({ s with pending := none } : SignatureStream).check r = _ from hcheck]
      rw [hadvance]
      exact .taken hf hsent hr hcheck

theorem Bounded.call (h : s.Bounded inputs w) (hc : s.Call w x t w') :
    t.Bounded inputs w' := by
  cases hc with
  | ended hf => exact h
  | refused hf hsent =>
    obtain ⟨hframes, hfew, -⟩ := h.asked hf hsent
    exact ⟨h.expected_eq, h.count_seen, hframes, hfew, absurd rfl,
      fun _ hf' => absurd hf' Bool.noConfusion⟩
  | @taken r y _ hf hsent hresponse hcheck =>
    obtain ⟨hframes, hfew, hasked⟩ := h.asked hf hsent
    obtain ⟨hindex, hfresh, -⟩ := check_ok hcheck
    rw [hindex] at hfresh
    have hcount := count_true_set hfresh
    have hle : (s.seen.set r.inputIndex.toNat true).count true ≤ s.expected := by
      refine List.count_le_length.trans (Nat.le_of_eq ?_)
      rw [List.length_set, expected]
    rw [hcount, h.count_seen, h.expected_eq] at hle
    refine ⟨?_, ?_, hframes, hfew, absurd rfl, fun _ _ => ?_⟩
    · rw [← h.expected_eq]
      simp [expected, accept]
    · exact hcount.trans (congrArg (· + 1) h.count_seen)
    · exact congrArg (· + 1) (hasked hle)

def gives : Option (Except ClientError InputSignature) → Bool
  | some (.ok _) => true
  | _ => false

theorem Call.received_eq (hc : s.Call w x t w') :
    t.received = s.received + if gives x then 1 else 0 := by
  cases hc with
  | ended hf => rfl
  | refused hf hsent => rfl
  | taken hf hsent hresponse hcheck => rfl

theorem Call.none_iff (hc : s.Call w x t w') : x = none ↔ s.finished = true := by
  cases hc with
  | ended hf => exact iff_of_true rfl hf
  | refused hf hsent => simp [hf]
  | taken hf hsent hresponse hcheck => simp [hf]

theorem Bounded.run_nextMany (h : s.Bounded inputs w) (n : Nat) :
    ∃ items t w', (nextMany n s).run w = (some (items, t), w') ∧ t.Bounded inputs w' ∧
      t.received = s.received + items.countP fun item => gives item.1 := by
  induction n generalizing s w with
  | zero => exact ⟨[], s, w, rfl, h, rfl⟩
  | succ n ih =>
    obtain ⟨x, t, w₁, hnext, hc⟩ := s.run_next_call w
    obtain ⟨items, u, w₂, hrun, hbounded, hcount⟩ := ih (h.call hc)
    refine ⟨(x, t.received) :: items, u, w₂, ?_, hbounded, ?_⟩
    · unfold nextMany
      rw [Program.run_bind, hnext]
      simp only [Program.run_bind, hrun]
      rfl
    · rw [hcount, hc.received_eq, List.countP_cons, Nat.add_assoc, Nat.add_comm (List.countP _ _)]

/-- Every later call gives nothing and leaves the link as it is. -/
def Over (s : SignatureStream) (link : τ) : Prop :=
  ∀ n, (nextMany n s).run link = (some (List.replicate n (none, s.received), s), link)

end

theorem bounded_ofFirst {τ : Type} (link : τ) (edits : List (Nat × Edit)) (system : SignatureSystem)
    (tx : Transaction) (keys : List (Block 33)) (limit : Nat) (first : TxSignature) :
    (ofFirst system tx keys limit first).Bounded tx.inputs.length (Wiretap.ofLink link edits) where
  expected_eq := by simp [expected, ofFirst]
  count_seen := by simp [ofFirst, List.count_eq_zero]
  frames := List.forall_mem_nil _
  few := List.length_pos_iff.2 tx.inputs_ne
  first := fun _ => ⟨rfl, rfl⟩
  going hp := absurd hp (Option.some_ne_none first)

/-- However many calls are made, and whatever answers come, fewer requests than there are inputs go
out, and a signature is counted for each one that was given and each input that is marked. Another
call then ends as well, and gives nothing just if the sequence is over. With an error it counts and
marks nothing, and the sequence is over; a signature that is given came with a record, which ends
the sequence if it is the last by its own account and not otherwise. If it is not, though every
input has its signature, the call after it fails without a request. -/
theorem next_bounded {τ : Type} [Transport τ] (link : τ) (edits : List (Nat × Edit))
    (system : SignatureSystem) (tx : Transaction) (keys : List (Block 33)) (limit : Nat)
    (first : TxSignature) (n : Nat) :
    ∃ items s w, (nextMany n (ofFirst system tx keys limit first)).run
        (Wiretap.ofLink link edits) = (some (items, s), w) ∧
      w.sent.length < tx.inputs.length ∧ (∀ f ∈ w.sent, f = nextFrame.layout) ∧
      s.received = items.countP (fun item => gives item.1) ∧ s.received = s.seen.count true ∧
      s.received ≤ tx.inputs.length ∧
      ∃ x t w', s.next.run w = (some (x, t), w') ∧
        (x = none ↔ s.finished = true) ∧ (x = none → t = s ∧ w' = w) ∧
        (∀ e, x = some (.error e) → t.seen = s.seen ∧ t.received = s.received ∧ t.Over w') ∧
        ∀ y, x = some (.ok y) → ∃ r, s.response.run.run w = (some (.ok r), w') ∧
          s.check r = .ok y ∧ t.finished = !r.hasMore ∧ (r.hasMore = false → t.Over w') ∧
          (r.hasMore = true → t.received = tx.inputs.length → ∃ u, t.next.run w' =
            (some (some (.error (.tooManySignatures tx.inputs.length)), u), w')) := by
  obtain ⟨items, s, w, hrun, hs, hcount⟩ :=
    (bounded_ofFirst link edits system tx keys limit first).run_nextMany n
  refine ⟨items, s, w, hrun, hs.few, hs.frames, hcount.trans (Nat.zero_add _), hs.count_seen.symm,
    hs.received_le, ?_⟩
  obtain ⟨x, t, w', hnext, hc⟩ := s.run_next_call w
  have ht := hs.call hc
  refine ⟨x, t, w', hnext, hc.none_iff, ?_, ?_, ?_⟩
  · rintro rfl
    cases hc with
    | ended hf => exact ⟨rfl, rfl⟩
  · rintro e rfl
    cases hc with
    | refused hf hsent => exact ⟨rfl, rfl, fun m => run_nextMany_finished rfl m w'⟩
  · rintro y rfl
    cases hc with
    | @taken r _ _ hf hsent hresponse hcheck =>
      refine ⟨r, hresponse, hcheck, rfl, fun hlast m => ?_, fun hmore hall => ?_⟩
      · exact run_nextMany_finished (by simp [accept, hlast]) m w'
      · have htoo := run_next_tooMany (s := { s with pending := none }.accept r) rfl
          (by simp [accept, hmore]) (hall.trans ht.expected_eq.symm) w'
        rw [ht.expected_eq] at htoo
        exact ⟨_, htoo⟩

end SignatureStream

namespace BoundedExample

open CollectExample (system tx key answer)

/-- More is promised behind the signature for the last input that has none. -/
def link : ScriptedLink :=
  ⟨[.onReceive (.answer (Answer.mk (answer true 0).layout StatusWord.ok.code).layout)]⟩

def line : Wiretap ScriptedLink := .ofLink link []

def stream : SignatureStream := .ofFirst system tx [key 0, key 1] 2000 (answer true 1)

end BoundedExample

open BoundedExample SignatureStream in
open CollectExample (key answer verify_answer) in
theorem next_bounded_one_too_many :
    ∃ items s w, (nextMany 1 stream).run line = (some (items, s), w) ∧ w.sent = [] ∧
      ∃ y t w', s.next.run w = (some (some (.ok y), t), w') ∧ t.received = 2 ∧
        w'.sent = [nextFrame.layout] ∧
        ∃ u, t.next.run w' = (some (some (.error (.tooManySignatures 2)), u), w') := by
  set after := ({ stream with pending := none } : SignatureStream).accept (answer true 1)
  obtain ⟨y, hfirst⟩ : ∃ y, stream.check (answer true 1) = .ok y :=
    ⟨_, check_eq_ok (key 1) rfl rfl rfl (verify_answer true 1)⟩
  obtain ⟨z, hsecond⟩ : ∃ z, after.check (answer true 0) = .ok z :=
    ⟨_, check_eq_ok (key 0) rfl rfl rfl (verify_answer true 0)⟩
  have honce : (nextMany 1 stream).run line = (some ([(some (.ok y), 1)], after), line) := by
    unfold nextMany
    rw [next_of_pending rfl rfl hfirst]
    rfl
  have htwice := run_next (s := after) rfl rfl (by decide)
    (show Transport.submit line nextFrame.layout = (.accepted, _) from rfl) rfl hsecond
  obtain ⟨items, s, w, hrun, -, -, -, -, -, x, t, w', hnext, -, -, -, hgiven⟩ :=
    next_bounded link [] CollectExample.system CollectExample.tx [key 0, key 1] 2000
      (answer true 1) 1
  obtain ⟨⟨⟩, ⟨⟩⟩ := Prod.mk.inj (hrun.symm.trans honce)
  obtain ⟨⟨⟩, ⟨⟩⟩ := Prod.mk.inj (hnext.symm.trans htwice)
  obtain ⟨r, -, -, hmore, -, htoo⟩ := hgiven _ rfl
  have hmore : r.hasMore = true := by simpa [accept, answer] using hmore
  exact ⟨_, _, _, honce, rfl, _, _, _, htwice, rfl, rfl, htoo hmore rfl⟩

end HardwareSigner
