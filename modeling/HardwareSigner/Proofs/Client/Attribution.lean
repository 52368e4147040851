import HardwareSigner.Proofs.Client.Owing

/-! Whose answers an operation is made of. Nothing in an answer says which frame it is for, so an
operation takes the oldest answer there is. That is the answer to its own frame exactly as long as
no operation before it was abandoned; every one that was puts all later ones one answer behind. -/

namespace HardwareSigner

namespace DelayedLink

variable {α : Type} {l l' : DelayedLink}

/-- Every answer was delivered. -/
def Settled (l : DelayedLink) : Prop := l.sent.length = l.delivered

/-- Between these two states of the link the program ended so by the answers to its own frames, the
ones that it handed over: each answer is the one to the frame at its place. -/
def OwnAnswers (l l' : DelayedLink) (p : Program α) (a : α) : Prop :=
  ∃ fs as, p.Trace fs as a ∧ l'.sent = l.sent ++ fs ∧ as.length ≤ fs.length ∧
    ∀ i raw, as[i]? = some raw → raw = l.device (l.sent ++ fs.take (i + 1))

/-- Between these two states of the link the program ended so by answers to frames so many places
before its own. -/
def AnswersBehind (l l' : DelayedLink) (n : Nat) (p : Program α) (a : α) : Prop :=
  n ≤ l.sent.length ∧ ∃ fs as, p.Trace fs as a ∧ l'.sent = l.sent ++ fs ∧
    as.length ≤ fs.length + n ∧
    ∀ i raw, as[i]? = some raw → raw = l.device ((l.sent ++ fs).take (l.sent.length - n + i + 1))

theorem AnswersBehind.own {p : Program α} {a : α} (h : AnswersBehind l l' 0 p a) :
    OwnAnswers l l' p a := by
  obtain ⟨-, fs, as, htrace, hsent, hlen, hanswers⟩ := h
  refine ⟨fs, as, htrace, hsent, hlen, ?_⟩
  intro i raw hi
  rw [hanswers i raw hi, Nat.sub_zero, Nat.add_assoc, List.take_length_add_append]

/-- What a link owes at the start of a program is how far behind the program is. -/
theorem answersBehind_of_run {p : Program α} {a : α} {n j : Nat}
    (hn : l.sent.length = l.delivered + n) (hj : l'.sent.length = l'.delivered + j)
    (h : p.run l = (some a, l')) : AnswersBehind l l' n p a := by
  obtain ⟨fs, as, htrace, hafter⟩ := trace_of_run h
  have hsent := congrArg List.length hafter.sent
  rw [List.length_append] at hsent
  have hdelivered := hafter.delivered
  refine ⟨by omega, fs, as, htrace, hafter.sent, by omega, ?_⟩
  intro i raw hi
  -- the next answer has the number of the answers delivered so far
  have hnumber : l.delivered + i = l.sent.length - n + i := by omega
  rw [hafter.answers i raw hi, answerTo, hafter.device, hafter.sent, hnumber]

end DelayedLink

namespace Handle

variable {h : Handle} {l l' l'' : DelayedLink} {ops : List Operation} {ends : List Ending}
  {op : Operation} {e : Ending} {n : Nat}

theorem owed_perform (hn : l.sent.length = l.delivered + n)
    (hr : (h.perform op).run l = (some e, l')) :
    l'.sent.length = l'.delivered + (n + e.abandoned.toNat) := by
  obtain ⟨j, rfl, hj⟩ := (h.owes_perform op).run hn hr
  rw [hj, Nat.add_assoc]

theorem owed_session (hn : l.sent.length = l.delivered + n)
    (hs : (h.session ops).run l = (some ends, l')) :
    l'.sent.length = l'.delivered + (n + ends.countP Ending.abandoned) := by
  induction ops generalizing l n ends with
  | nil =>
    cases hs
    exact hn
  | cons op ops ih =>
    rw [session, Program.run_bind] at hs
    split at hs
    · rename_i e mid hop
      rw [Program.run_bind] at hs
      split at hs
      · rename_i rest last hrest
        cases hs
        have howed := ih (owed_perform hn hop) hrest
        have hcount : (e :: rest).countP Ending.abandoned =
            e.abandoned.toNat + rest.countP Ending.abandoned := by
          rw [List.countP_cons, Nat.add_comm]
          cases e.abandoned <;> rfl
        rw [hcount, howed, Nat.add_assoc]
      · cases hs
    · cases hs

/-- On a link with a delay, an operation is behind by one answer for each operation before it that
was abandoned. Without any of these it is made of the answers to its own frames. -/
theorem session_attribution (h : Handle) (hl : l.Settled)
    (hs : (h.session ops).run l = (some ends, l'))
    (ho : (h.perform op).run l' = (some e, l'')) :
    ((∀ e ∈ ends, e.abandoned = false) → DelayedLink.OwnAnswers l' l'' (h.perform op) e) ∧
      DelayedLink.AnswersBehind l' l'' (ends.countP Ending.abandoned) (h.perform op) e := by
  have hstart : l.sent.length = l.delivered + 0 := hl
  have howed := owed_session hstart hs
  rw [Nat.zero_add] at howed
  have hbehind := DelayedLink.answersBehind_of_run howed (owed_perform howed ho) ho
  refine ⟨fun hkept => ?_, hbehind⟩
  have hnone : ends.countP Ending.abandoned = 0 := by
    rw [List.countP_eq_zero]
    intro e he
    simp [hkept e he]
  rw [hnone] at hbehind
  exact hbehind.own

end Handle

namespace AttributionExample

def path (x : UInt8) : DerivationPath := ⟨[x.toUInt32], by simp⟩

def key (x : UInt8) : PublicKey :=
  ⟨⟨PublicKey.uncompressed :: List.replicate 64 x, by simp⟩, ⟨List.replicate 32 x, by simp⟩⟩

/-- A device that tells the key of the path in the last frame. -/
def device (frames : List Bytes) : Bytes :=
  (Answer.mk (key ((frames.getLastD []).getLastD 0)).layout StatusWord.ok.code).layout

def handle : Handle := ⟨Secp256k1.system, {}⟩

def frame (x : UInt8) : Bytes := [appClass, Instruction.getPublicKey.code, 0, 0, 5, 1, 0, 0, 0, x]

def confirmFrame (x : UInt8) : Bytes :=
  [appClass, Instruction.getPublicKey.code, 1, 0, 5, 1, 0, 0, 0, x]

/-- The first answer is late, the others are not. -/
def lateLink : DelayedLink := ⟨device, [], 0, [false]⟩

def owingLink : DelayedLink := ⟨device, [frame 1], 0, []⟩

theorem run_given_up : (handle.session [.publicKey (path 1)]).run lateLink =
    (some [.failed .requestTimeout], owingLink) := rfl

def staleLink : DelayedLink := ⟨device, [frame 1, frame 2], 1, []⟩

theorem run_after_given_up : (handle.perform (.publicKey (path 2))).run owingLink =
    (some (.key (key 1)), staleLink) := rfl

def promptLink : DelayedLink := ⟨device, [], 0, []⟩

def paidLink : DelayedLink := ⟨device, [frame 1, confirmFrame 3], 2, []⟩

theorem run_waited_for :
    (handle.session [.publicKey (path 1), .confirmPublicKey (path 3) true]).run promptLink =
      (some [.key (key 1), .key (key 3)], paidLink) := rfl

def paidAgainLink : DelayedLink := ⟨device, [frame 1, confirmFrame 3, frame 2], 3, []⟩

theorem run_after_waited_for : (handle.perform (.publicKey (path 2))).run paidLink =
    (some (.key (key 2)), paidAgainLink) := rfl

end AttributionExample

open AttributionExample in
theorem session_attribution_key :
    paidLink.OwnAnswers paidAgainLink (handle.perform (.publicKey (path 2))) (.key (key 2)) ∧
      owingLink.AnswersBehind staleLink 1 (handle.perform (.publicKey (path 2)))
        (.key (key 1)) := by
  have hkept : ∀ e ∈ [Ending.key (key 1), .key (key 3)], e.abandoned = false := by
    simp [Ending.abandoned]
  have hprompt : promptLink.Settled := rfl
  have hlate : lateLink.Settled := rfl
  exact ⟨(handle.session_attribution hprompt run_waited_for run_after_waited_for).1 hkept,
    (handle.session_attribution hlate run_given_up run_after_given_up).2⟩

open AttributionExample in
/-- The key of the first path is late and the request for it is given up; then it is told as the key
of the second path, though the answer to the second request is another key. -/
theorem late_key_misattributed : lateLink.Settled ∧
    (handle.session [.publicKey (path 1)]).run lateLink =
      (some [.failed .requestTimeout], owingLink) ∧
    (handle.perform (.publicKey (path 2))).run owingLink =
      (some (.key (key 1)), staleLink) ∧
    ¬owingLink.OwnAnswers staleLink (handle.perform (.publicKey (path 2))) (.key (key 1)) := by
  refine ⟨rfl, run_given_up, run_after_given_up, ?_⟩
  rintro ⟨fs, as, htrace, -, -, hown⟩
  obtain ⟨rest, hfs, ⟨raw, others, rfl, hend⟩ | ⟨-, hend⟩⟩ := htrace
  · -- the answer to the second request tells the second key
    have hraw : raw = (Answer.mk (key 2).layout StatusWord.ok.code).layout := by
      have := hown 0 raw rfl
      rw [hfs, List.take_succ_cons, List.take_zero] at this
      exact this.trans rfl
    subst hraw
    have hkeys : rest = [] ∧ others = [] ∧ Ending.key (key 2) = .key (key 1) := hend
    simp [key] at hkeys
  · have hfailed : rest = [] ∧ as = [] ∧ Ending.failed .requestTimeout = .key (key 1) := hend
    cases hfailed.2.2

end HardwareSigner
