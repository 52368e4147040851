import HardwareSigner.Proofs.Device.Withheld
import HardwareSigner.Proofs.Stream.Framing

/-! A connection changes nothing about the device behind it. However its bytes are cut and however
its two ends take turns, what the wallet receives are the replies of the engine to the frames, in
order. Every turn that does anything brings the connection closer to its end, and where none does
everything has been received. -/

namespace HardwareSigner

namespace Engine

variable {σ : Type} [KeySource σ] {e : Engine σ} {policy : ApprovalPolicy}

theorem settled_pending (frames : List Bytes) (h : (settled policy e frames).isPending = true) :
    (settled policy e frames).activity = e.activity := by
  induction frames generalizing e with
  | nil => rfl
  | cons apdu frames ih =>
    have hrest := ih h
    have hfirst : (settle policy e apdu).2.isPending = true := by
      rw [isPending, ← hrest]
      exact h
    exact hrest.trans (settle_pending hfirst)

theorem Named.length_replies (h : e.Named) {frames : List Bytes} {raw : Bytes}
    (hraw : raw ∈ replies policy e frames) : 2 ≤ raw.length ∧ raw.length ≤ 262 := by
  induction frames generalizing e with
  | nil => cases hraw
  | cons apdu frames ih =>
    rcases List.mem_cons.1 hraw with rfl | hraw
    · exact h.length_settle policy apdu
    · have hnext : (settle policy e apdu).2.Named := by
        rw [Named, settle_config]
        exact h
      exact ih hnext hraw

end Engine

namespace Connection

open HardwareSigner.Stream (request reply length_request length_reply)

variable {σ : Type} [KeySource σ]

/-- What is left to do on a connection. Every byte counts for each way that it has to go, and at
the device also for the reply to come. -/
def work (c : Connection σ) : Nat :=
  (c.frames.map fun apdu => 135 * (request apdu).length + 1).sum + 135 * c.wallet.sent.length +
    134 * c.arrived.flatten.length + 2 * c.replies.length + c.wallet.incoming.flatten.length

/-- Where the frames and the replies to them are: the device has taken some frames and others are
on their way, and of the replies some were received and others are on their way back. -/
structure Places (d : SimDevice σ) (frames : List Bytes) (c : Connection σ)
    (done waiting got owed : List Bytes) : Prop where
  frames : frames = done ++ waiting ++ c.frames
  replies : Engine.replies d.policy d.engine done = got ++ owed
  going : c.arrived.flatten ++ c.wallet.sent = waiting.flatMap request
  coming : c.wallet.incoming.flatten ++ c.replies = owed.flatMap reply
  received : c.received = got.map .answer
  serving : c.serving = .listening
  engine : c.device.engine = Engine.settled d.policy d.engine done
  policy : c.device.policy = d.policy
  response : c.device = d ∨ c.device.response = none

def Sound (d : SimDevice σ) (frames : List Bytes) (c : Connection σ) : Prop :=
  ∃ done waiting got owed, c.Places d frames done waiting got owed

/-- A turn does nothing, and then for this reason, or it brings the connection forward. -/
def Advances (d : SimDevice σ) (frames : List Bytes) (c c' : Connection σ) (reason : Prop) : Prop :=
  c' = c ∧ reason ∨ c'.Sound d frames ∧ c'.work < c.work

variable {d : SimDevice σ} {frames done waiting got owed : List Bytes} {c : Connection σ}

theorem sound_start (d : SimDevice σ) (frames : List Bytes) : (start d frames).Sound d frames :=
  ⟨[], [], [], [], rfl, rfl, rfl, rfl, rfl, rfl, rfl, rfl, .inl rfl⟩

theorem Places.submit (hp : c.Places d frames done waiting got owed) :
    Advances d frames c c.submit (c.frames = []) := by
  unfold Connection.submit
  split
  · rename_i hnone
    exact .inl ⟨rfl, hnone⟩
  · rename_i apdu more hframes
    refine .inr ⟨⟨done, waiting ++ [apdu], got, owed, ?_, hp.replies, ?_, hp.coming, hp.received,
      hp.serving, hp.engine, hp.policy, hp.response⟩, ?_⟩
    · rw [hp.frames, hframes]
      simp
    · change c.arrived.flatten ++ (c.wallet.sent ++ request apdu) = _
      rw [← List.append_assoc, hp.going]
      simp
    · simp only [work, hframes, StreamLink.submit, List.map_cons, List.sum_cons, List.length_append]
      omega

/-- A segment that is cut off a sequence has some of its bytes, unless the cut is at its start or
there are none. -/
theorem segment_cases (b : Bytes) (n : Nat) : (b.take n).isEmpty = true ∧ (n ≠ 0 → b = []) ∨
    (b.take n).isEmpty = false ∧ (b.drop n).length < b.length ∧
      (b.take n).length + (b.drop n).length = b.length := by
  have hsum := congrArg List.length (List.take_append_drop n b)
  rw [List.length_append] at hsum
  cases hsegment : b.take n with
  | nil =>
    rw [List.take_eq_nil_iff] at hsegment
    exact .inl ⟨rfl, hsegment.resolve_left⟩
  | cons x segment =>
    rw [hsegment, List.length_cons] at hsum
    refine .inr ⟨rfl, by omega, ?_⟩
    rw [List.length_cons]
    exact hsum

theorem Places.carry (hp : c.Places d frames done waiting got owed) (n : Nat) :
    Advances d frames c (c.carry n) (n ≠ 0 → c.wallet.sent = []) := by
  unfold Connection.carry
  rcases segment_cases c.wallet.sent n with ⟨hsegment, hnone⟩ | ⟨hsegment, hless, hsum⟩
  · exact .inl ⟨if_pos hsegment, hnone⟩
  · rw [if_neg (by simp [hsegment])]
    refine .inr ⟨⟨done, waiting, got, owed, hp.frames, hp.replies, ?_, hp.coming, hp.received,
      hp.serving, hp.engine, hp.policy, hp.response⟩, ?_⟩
    · simpa using hp.going
    · simp only [work, List.flatten_append, List.flatten_singleton, List.length_append]
      omega

theorem Places.carryBack (hp : c.Places d frames done waiting got owed) (n : Nat) :
    Advances d frames c (c.carryBack n) (n ≠ 0 → c.replies = []) := by
  unfold Connection.carryBack
  rcases segment_cases c.replies n with ⟨hsegment, hnone⟩ | ⟨hsegment, hless, hsum⟩
  · exact .inl ⟨if_pos hsegment, hnone⟩
  · rw [if_neg (by simp [hsegment])]
    refine .inr ⟨⟨done, waiting, got, owed, hp.frames, hp.replies, hp.going, ?_, hp.received,
      hp.serving, hp.engine, hp.policy, hp.response⟩, ?_⟩
    · simpa using hp.coming
    · simp only [work, List.flatten_append, List.flatten_singleton, List.length_append]
      omega

/-- Of the next of the items not all is there, or it is there with what follows it; or there is
none. -/
theorem next_of_flatMap {b rest : Bytes} {items : List Bytes} {text : Bytes → Bytes}
    (h : b ++ rest = items.flatMap text) :
    b = [] ∧ items = [] ∨ ∃ item more, items = item :: more ∧
      (Stream.Part b (text item) ∧ rest ≠ [] ∨
        ∃ tail, b = text item ++ tail ∧ tail ++ rest = more.flatMap text) := by
  cases items with
  | nil => exact .inl ⟨(List.append_eq_nil_iff.1 h).1, rfl⟩
  | cons item more => exact .inr ⟨item, more, rfl, Stream.part_or_append h⟩

theorem serve_of_part (hserving : c.serving = .listening) {apdu : Bytes}
    (hlen : apdu.length ≤ Frame.maxLength) (h : Stream.Part c.arrived.flatten (request apdu)) :
    c.serve = c := by
  obtain ⟨hclosed, hsized⟩ := Stream.serveNext_part (d := c.device) hlen h
  rw [serve, if_neg (not_not_intro hserving), hclosed]
  exact if_neg (by simp [hsized])

theorem Places.serve (hp : c.Places d frames done waiting got owed) (hpolicy : d.policy ≠ .manual)
    (hname : d.engine.Named) (hframes : ∀ apdu ∈ frames, apdu.length ≤ Frame.maxLength) :
    Advances d frames c c.serve (c.wallet.sent = [] → waiting = []) := by
  rcases next_of_flatMap hp.going with ⟨hnone, rfl⟩ | ⟨apdu, more, rfl, hnext⟩
  · have hpart : Stream.Part c.arrived.flatten (request []) := by
      rw [hnone]
      exact Stream.part_of_nil (by simp [request, Stream.lengthBytes, Bytes.ofNatBE])
    exact .inl ⟨serve_of_part hp.serving (Nat.zero_le _) hpart, fun _ => rfl⟩
  have hlen : apdu.length ≤ Frame.maxLength := hframes apdu (by simp [hp.frames])
  rcases hnext with ⟨hpart, hmore⟩ | ⟨tail, harrived, hgoing⟩
  · exact .inl ⟨serve_of_part hp.serving hlen hpart, fun hsent => absurd hsent hmore⟩
  · obtain ⟨rest, hserve, hrest⟩ :=
      Stream.serveNext_request (d := c.device) (hp.policy ▸ hpolicy) hlen harrived
    rw [hp.policy, hp.engine] at hserve
    have hnamed : (Engine.settled d.policy d.engine done).Named := by
      rw [Engine.Named, Engine.settled_config]
      exact hname
    have hshort := (hnamed.length_settle d.policy apdu).2
    rw [Connection.serve, if_neg (not_not_intro hp.serving), hserve]
    refine .inr ⟨⟨done ++ [apdu], more, got,
      owed ++ [(Engine.settle d.policy (Engine.settled d.policy d.engine done) apdu).1], ?_, ?_, ?_,
      ?_, hp.received, hp.serving, ?_, rfl, .inr rfl⟩, ?_⟩
    · rw [hp.frames]
      simp
    · rw [Engine.replies_append, hp.replies, List.append_assoc]
      rfl
    · rw [hrest]
      exact hgoing
    · change c.wallet.incoming.flatten ++ (c.replies ++ _) = _
      rw [← List.append_assoc, hp.coming]
      simp
    · exact (Engine.settled_concat done).symm
    · simp only [work, harrived, hrest, List.length_append, length_request, length_reply]
      omega

omit [KeySource σ] in
theorem receive_of_part (hserving : c.serving = .listening) {raw : Bytes} (hmin : 2 ≤ raw.length)
    (hmax : raw.length ≤ 262) (h : Stream.Part c.wallet.incoming.flatten (reply raw)) :
    c.receive = c := by
  have hended := Stream.receive_part hmin hmax h
  exact if_pos ⟨hended, .inl (by simp [hserving])⟩

theorem Places.receive (hp : c.Places d frames done waiting got owed) (hname : d.engine.Named) :
    Advances d frames c c.receive (c.replies = [] → owed = []) := by
  rcases next_of_flatMap hp.coming with ⟨hnone, rfl⟩ | ⟨raw, more, rfl, hnext⟩
  · have hpart : Stream.Part c.wallet.incoming.flatten (reply [0, 0]) := by
      rw [hnone]
      exact Stream.part_of_nil (by simp [reply, Stream.lengthBytes, Bytes.ofNatBE])
    exact .inl ⟨receive_of_part hp.serving (by decide) (by decide) hpart, fun _ => rfl⟩
  have hmem : raw ∈ Engine.replies d.policy d.engine done := by simp [hp.replies]
  obtain ⟨hmin, hmax⟩ := hname.length_replies hmem
  rcases hnext with ⟨hpart, hmore⟩ | ⟨tail, hincoming, hcoming⟩
  · exact .inl ⟨receive_of_part hp.serving hmin hmax hpart, fun hnone => absurd hnone hmore⟩
  · obtain ⟨rest, hreceive, hrest⟩ := Stream.receive_reply (l := c.wallet) hmin hmax hincoming
    have hnot : ¬(Received.answer raw = StreamLink.ended ∧
        (c.serving ≠ .closed ∨ c.replies ≠ [])) := fun h => by cases h.1
    have hstep : c.receive = { c with
        wallet := { c.wallet with incoming := rest }
        received := c.received ++ [.answer raw] } := by
      rw [Connection.receive, hreceive]
      exact if_neg hnot
    rw [hstep]
    refine .inr ⟨⟨done, waiting, got ++ [raw], more, hp.frames, ?_, hp.going, ?_, ?_, hp.serving,
      hp.engine, hp.policy, hp.response⟩, ?_⟩
    · rw [hp.replies]
      simp
    · rw [hrest]
      exact hcoming
    · rw [hp.received]
      simp
    · simp only [work, hincoming, hrest, List.length_append, length_reply]
      omega

/-- What is asked of a device and of the frames to it. -/
structure Apt (d : SimDevice σ) (frames : List Bytes) : Prop where
  policy : d.policy ≠ .manual
  named : d.engine.Named
  frames : ∀ apdu ∈ frames, apdu.length ≤ Frame.maxLength

theorem Advances.progress {c' : Connection σ} {reason : Prop} (h : Advances d frames c c' reason) :
    c' = c ∨ c'.Sound d frames ∧ c'.work < c.work :=
  h.imp_left And.left

theorem Advances.reason_of_eq {c' : Connection σ} {reason : Prop}
    (h : Advances d frames c c' reason) (heq : c' = c) : reason := by
  rcases h with ⟨-, hreason⟩ | ⟨-, hless⟩
  · exact hreason
  · rw [heq] at hless
    exact absurd hless (Nat.lt_irrefl _)

theorem Sound.turn (hs : c.Sound d frames) (ha : Apt d frames) (t : Turn) :
    c.turn t = c ∨ (c.turn t).Sound d frames ∧ (c.turn t).work < c.work := by
  obtain ⟨done, waiting, got, owed, hp⟩ := hs
  cases t with
  | submit => exact hp.submit.progress
  | carry n => exact (hp.carry n).progress
  | serve => exact (hp.serve ha.policy ha.named ha.frames).progress
  | carryBack n => exact (hp.carryBack n).progress
  | receive => exact (hp.receive ha.named).progress

theorem Sound.run (hs : c.Sound d frames) (ha : Apt d frames) (turns : List Turn) :
    (c.run turns).Sound d frames := by
  induction turns generalizing c with
  | nil => exact hs
  | cons t turns ih =>
    rcases hs.turn ha t with heq | ⟨hnext, -⟩
    · exact ih (heq.symm ▸ hs)
    · exact ih hnext

theorem Places.received_begins (hp : c.Places d frames done waiting got owed) :
    c.received <+: (Engine.replies d.policy d.engine frames).map .answer := by
  rw [hp.received, hp.frames, List.append_assoc, Engine.replies_append, hp.replies,
    List.append_assoc, List.map_append]
  exact List.prefix_append _ _

/-- Where no turn does anything, nothing is left on the way. -/
theorem Places.complete (hp : c.Places d frames done waiting got owed) (ha : Apt d frames)
    (hstill : ∀ t, c.turn t = c) :
    c.received = (Engine.replies d.policy d.engine frames).map .answer := by
  have hframes : c.frames = [] := hp.submit.reason_of_eq (hstill .submit)
  have hsent : c.wallet.sent = [] := (hp.carry 1).reason_of_eq (hstill (.carry 1)) Nat.one_ne_zero
  have hwaiting : waiting = [] :=
    (hp.serve ha.policy ha.named ha.frames).reason_of_eq (hstill .serve) hsent
  have hreplies : c.replies = [] :=
    (hp.carryBack 1).reason_of_eq (hstill (.carryBack 1)) Nat.one_ne_zero
  have howed : owed = [] := (hp.receive ha.named).reason_of_eq (hstill .receive) hreplies
  have hdone : frames = done := by rw [hp.frames, hwaiting, hframes]; simp
  have hgot : got = Engine.replies d.policy d.engine done := by rw [hp.replies, howed]; simp
  rw [hp.received, hgot, hdone]

/-- A wallet sends frames to a device that decides by itself. In whatever order the two ends take
their turns and in whatever segments the bytes arrive, the waits of the wallet give the replies of
the engine to the frames, each by the engine as the frames before have left it, and nothing else.
Every turn does nothing or leaves less to be done, and when no turn does anything the wallet has
all the replies. Between two frames there is no answer in the device, its engine is the one that
the frames so far lead to, and nothing is pending unless it was when the device was connected. -/
theorem transparent (d : SimDevice σ) (frames : List Bytes) (turns : List Turn)
    (hpolicy : d.policy ≠ .manual) (hname : (Bytes.ofText d.engine.config.name).length ≤ 244)
    (hframes : ∀ apdu ∈ frames, apdu.length ≤ 260) {c : Connection σ}
    (hc : c = (start d frames).run turns) :
    (c.received <+: (Engine.replies d.policy d.engine frames).map .answer) ∧
    (∀ t, c.turn t = c ∨ (c.turn t).work < c.work) ∧
    ((∀ t, c.turn t = c) →
      c.received = (Engine.replies d.policy d.engine frames).map .answer) ∧
    (c.device = d ∨ c.device.response = none) ∧
    (∃ done, done <+: frames ∧ c.device.engine = Engine.settled d.policy d.engine done) ∧
    (c.device.isPending = true → c.device.activity = d.activity) := by
  have ha : Apt d frames := ⟨hpolicy, hname, hframes⟩
  have hs : c.Sound d frames := hc ▸ (sound_start d frames).run ha turns
  have hturn := fun t => (hs.turn ha t).imp_right And.right
  obtain ⟨done, waiting, got, owed, hp⟩ := hs
  refine ⟨hp.received_begins, hturn, hp.complete ha, hp.response, ⟨done, ?_, hp.engine⟩, ?_⟩
  · rw [hp.frames, List.append_assoc]
    exact List.prefix_append _ _
  · rw [SimDevice.isPending, SimDevice.activity, hp.engine]
    exact Engine.settled_pending done

end Connection

namespace ConnectionExample

/-- Without anyone asked, the device denies. -/
def device : SimDevice ReleaseExample.OneKey := .new WithheldExample.engine .deny

/-- The second frame is sent before the first has arrived, and both ends read too early. -/
def turns : List Connection.Turn :=
  [.submit, .carry 3, .serve, .submit, .carry 7, .carry 40, .receive, .serve, .serve, .carryBack 5,
    .receive, .carryBack 40, .receive, .receive]

end ConnectionExample

open ConnectionExample in
open WithheldExample (message query version) in
theorem transparent_in_pieces :
    ((Connection.start device [message, query]).run turns).received.length = 2 ∧
    (((Connection.start device [message, query]).run turns).received <+:
      [.answer [0x69, 0x85], .answer version]) ∧
    ((Connection.start device [message, query]).run turns).device.isPending = false := by
  obtain ⟨hbegins, -⟩ :=
    Connection.transparent device [message, query] turns nofun (by decide) (by decide) rfl
  exact ⟨rfl, hbegins, rfl⟩

end HardwareSigner
