import HardwareSigner.Log
import HardwareSigner.Device.Simulated
import HardwareSigner.Proofs.Device.Release

/-! What waits to be fetched from a simulated device. There is one place for an answer: a call that
has an answer puts it there, and the next wait takes it away. A frame that waits for the operator
has none, so it leaves the place as it finds it; the operator's decision fills it again. -/

namespace HardwareSigner

theorem Engine.isPending_of_update {σ : Type} [KeySource σ] {e : Engine σ} {apdu : Bytes}
    (h : (e.update apdu).1 = .ok .pending) : (e.update apdu).2.isPending = true := by
  have hchange := e.step_change (.frame apdu)
  change e.Change (.frame apdu) (e.update apdu).1 (e.update apdu).2 at hchange
  rw [h] at hchange
  generalize (e.update apdu).2 = e' at hchange
  cases hchange with
  | keyShown hx hpath => rfl
  | messageShown hx hparse hhash => rfl
  | completed hx hact hpush hfee hchange hask => rfl

namespace SimDevice

inductive Call where
  | submit (apdu : Bytes)
  | receive
  | approve
  | deny
  deriving DecidableEq

variable {σ : Type} [KeySource σ]

def perform (d : SimDevice σ) : Call → SimDevice σ
  | .submit apdu => d.submit apdu
  | .receive => d.receive.2
  | .approve => d.approve.2
  | .deny => d.deny.2

def after (d : SimDevice σ) (calls : List Call) : SimDevice σ := calls.foldl perform d

/-- The answer that a call puts in its place. -/
def leaves (d : SimDevice σ) : Call → Option Bytes
  | .submit apdu => (respond d.policy d.engine apdu).1
  | .receive => none
  | .approve => if d.isPending then some (resolved d.engine.approve.1) else none
  | .deny => if d.isPending then some (resolved (.error .deny)) else none

/-- None of these calls takes an answer away or puts one in its place. -/
def Quiet (d : SimDevice σ) : List Call → Prop
  | [] => True
  | c :: cs => c ≠ .receive ∧ d.leaves c = none ∧ (d.perform c).Quiet cs

/-- One of these calls had this answer, and after it none took it away or put another in its
place. -/
def Unread (d : SimDevice σ) (calls : List Call) (r : Bytes) : Prop :=
  ∃ before call since, calls = before ++ call :: since ∧ (d.after before).leaves call = some r ∧
    (d.after (before ++ [call])).Quiet since

variable {d : SimDevice σ} {calls : List Call} {c : Call} {r : Bytes}

@[simp] theorem after_append (calls more : List Call) :
    d.after (calls ++ more) = (d.after calls).after more := by
  unfold after
  exact List.foldl_append

theorem after_concat (calls : List Call) (c : Call) :
    d.after (calls ++ [c]) = (d.after calls).perform c := d.after_append calls [c]

theorem quiet_concat :
    d.Quiet (calls ++ [c]) ↔
      d.Quiet calls ∧ c ≠ .receive ∧ (d.after calls).leaves c = none := by
  induction calls generalizing d with
  | nil => exact ⟨fun h => ⟨trivial, h.1, h.2.1⟩, fun h => ⟨h.2.1, h.2.2, trivial⟩⟩
  | cons first calls ih =>
    constructor
    · rintro ⟨hne, hnone, hrest⟩
      obtain ⟨hquiet, hlast⟩ := ih.1 hrest
      exact ⟨⟨hne, hnone, hquiet⟩, hlast⟩
    · rintro ⟨⟨hne, hnone, hquiet⟩, hlast⟩
      exact ⟨hne, hnone, ih.2 ⟨hquiet, hlast⟩⟩

/-- A call's own answer is unread, or else one that was unread before it, unless the call is a
wait. -/
theorem unread_concat :
    d.Unread (calls ++ [c]) r ↔ (d.after calls).leaves c = some r ∨
      c ≠ .receive ∧ (d.after calls).leaves c = none ∧ d.Unread calls r := by
  constructor
  · rintro ⟨before, call, since, hcalls, hleaves, hquiet⟩
    rcases Log.concat_eq_split.1 hcalls with ⟨rfl, rfl, rfl⟩ | ⟨between, rfl, rfl⟩
    · exact .inl hleaves
    · obtain ⟨hquiet, hne, hnone⟩ := quiet_concat.1 hquiet
      rw [← after_append, List.append_assoc, List.singleton_append] at hnone
      exact .inr ⟨hne, hnone, before, call, between, rfl, hleaves, hquiet⟩
  · rintro (hleaves | ⟨hne, hnone, before, call, since, rfl, hleaves, hquiet⟩)
    · exact ⟨calls, c, [], rfl, hleaves, trivial⟩
    · refine ⟨before, call, since ++ [c], by simp, hleaves, quiet_concat.2 ⟨hquiet, hne, ?_⟩⟩
      rw [← after_append, List.append_assoc, List.singleton_append]
      exact hnone

theorem approve_of_pending (h : d.isPending = true) : d.approve =
    (.ok (), { d with
      engine := d.engine.approve.2, response := some (resolved d.engine.approve.1) }) := if_pos h

theorem approve_of_not_pending (h : ¬d.isPending = true) :
    d.approve = (.error .notPending, d) := if_neg h

omit [KeySource σ] in
theorem deny_of_pending (h : d.isPending = true) : d.deny =
    (.ok (), { d with
      engine := d.engine.reset, response := some (resolved (.error .deny)) }) := by
  have hdeny : d.engine.deny = (.ok (), d.engine.reset) := if_pos h
  unfold deny
  rw [hdeny]

omit [KeySource σ] in
theorem deny_of_not_pending (h : ¬d.isPending = true) :
    d.deny = (.error .notPending, d) := by
  have hdeny : d.engine.deny = (.error .badState, d.engine) := if_neg h
  unfold deny
  rw [hdeny]

theorem response_perform (d : SimDevice σ) (c : Call) :
    (d.perform c).response = if c = .receive then none else (d.leaves c).or d.response := by
  cases c with
  | submit apdu =>
    simp only [perform, submit, leaves, reduceCtorEq, if_false]
    rcases respond d.policy d.engine apdu with ⟨_ | r, e⟩ <;> rfl
  | receive => rfl
  | approve =>
    by_cases h : d.isPending
    · simp [perform, leaves, h, approve_of_pending h]
    · simp [perform, leaves, h, approve_of_not_pending h]
  | deny =>
    by_cases h : d.isPending
    · simp [perform, leaves, h, deny_of_pending h]
    · simp [perform, leaves, h, deny_of_not_pending h]

/-- A wait finds the answer that is unread. -/
theorem response_after (hd : d.response = none) (calls : List Call) (r : Bytes) :
    (d.after calls).response = some r ↔ d.Unread calls r := by
  induction calls using List.reverseRecOn generalizing r with
  | nil =>
    constructor
    · intro h
      cases hd.symm.trans h
    · rintro ⟨before, call, since, hcalls, -⟩
      simp at hcalls
  | append_singleton calls c ih =>
    rw [after_concat, response_perform, unread_concat, ← ih]
    by_cases hc : c = .receive
    · subst hc
      simp [leaves]
    · cases hleaves : (d.after calls).leaves c <;> simp [hc]

theorem policy_perform (d : SimDevice σ) (c : Call) : (d.perform c).policy = d.policy := by
  cases c with
  | submit apdu =>
    simp only [perform, submit]
    split <;> rfl
  | receive => rfl
  | approve =>
    by_cases h : d.isPending
    · simp [perform, approve_of_pending h]
    · simp [perform, approve_of_not_pending h]
  | deny =>
    by_cases h : d.isPending
    · simp [perform, deny_of_pending h]
    · simp [perform, deny_of_not_pending h]

theorem policy_after (d : SimDevice σ) (calls : List Call) :
    (d.after calls).policy = d.policy := by
  induction calls generalizing d with
  | nil => rfl
  | cons c calls ih => exact (ih _).trans (d.policy_perform c)

theorem after_waits (d : SimDevice σ) (n : Nat) :
    d.after (List.replicate n .receive) =
      { d with response := if n = 0 then d.response else none } := by
  induction n with
  | zero => rfl
  | succ n ih =>
    rw [List.replicate_succ', after_concat, ih]
    rfl

theorem submit_of_pending {apdu : Bytes} (hpolicy : d.policy = .manual)
    (hupdate : (d.engine.update apdu).1 = .ok .pending) :
    d.submit apdu = { d with engine := (d.engine.update apdu).2 } := by
  unfold submit respond
  rcases hstep : d.engine.update apdu with ⟨answer, e⟩
  rw [hstep] at hupdate
  obtain rfl : answer = .ok .pending := hupdate
  simp only [hpolicy]

/-- The operator may approve or deny what is pending in this engine, and a wait after that gives
what comes of it. -/
structure AwaitsDecision (d : SimDevice σ) (e : Engine σ) : Prop where
  approve : d.approve.1 = .ok () ∧ d.approve.2.receive.1 = some (resolved e.approve.1)
  deny : d.deny.1 = .ok () ∧ d.deny.2.receive.1 = some (resolved (.error .deny))

theorem awaitsDecision (h : d.isPending = true) : d.AwaitsDecision d.engine where
  approve := by
    rw [approve_of_pending h]
    exact ⟨rfl, rfl⟩
  deny := by
    rw [deny_of_pending h]
    exact ⟨rfl, rfl⟩

/-- Whatever a device was called for before, once it leaves a frame to the operator a wait ends
exactly if the answer to one of the earlier calls is unread, with this answer, and only the first
one does. The operator's decision is on the frame itself, and so is what a wait gives after it. -/
theorem withheld_unless_unread (e : Engine σ) (calls : List Call) (apdu : Bytes) {d : SimDevice σ}
    (hd : d = (new e .manual).after calls) (hupdate : (d.engine.update apdu).1 = .ok .pending) :
    (∀ r, (d.submit apdu).receive.1 = some r ↔ (new e .manual).Unread calls r) ∧
    ∀ n, (n ≠ 0 → ((d.submit apdu).after (List.replicate n .receive)).receive.1 = none) ∧
      ((d.submit apdu).after (List.replicate n .receive)).AwaitsDecision
        (d.engine.update apdu).2 := by
  have hpolicy : d.policy = .manual := by
    rw [hd, policy_after]
    rfl
  rw [submit_of_pending hpolicy hupdate]
  constructor
  · intro r
    rw [← response_after rfl, ← hd]
    rfl
  · intro n
    rw [after_waits]
    refine ⟨fun hn => if_neg hn, ?_⟩
    exact awaitsDecision (Engine.isPending_of_update hupdate)

end SimDevice

namespace WithheldExample

open ReleaseExample (OneKey system keys)

def engine : Engine OneKey := Engine.new system {} keys

def query : Bytes := [0xe0, 0x03, 0, 0, 0]

def version : Bytes := [1, 1, 0, 0x90, 0x00]

def message : Bytes := [0xe0, 0x07, 0, 0, 14, 0, 0, 0, 0, 0, 0x80, 0, 0, 0, 4, 116, 101, 115, 116]

/-- A device whose answer to the query is unread. -/
def device : SimDevice OneKey := (SimDevice.new engine .manual).after [.submit query]

theorem unread : (SimDevice.new engine .manual).Unread [.submit query] version :=
  ⟨[], .submit query, [], rfl, rfl, trivial⟩

theorem update_message : (device.engine.update message).1 = .ok .pending := rfl

end WithheldExample

open WithheldExample in
theorem withheld_unless_unread_query :
    (device.submit message).receive.1 = some version ∧
      (device.submit message).receive.2.receive.1 = none ∧
      (device.submit message).receive.2.AwaitsDecision (device.engine.update message).2 := by
  obtain ⟨hfirst, hmore⟩ := SimDevice.withheld_unless_unread engine [.submit query] message rfl
    update_message
  obtain ⟨hnone, hawaits⟩ := hmore 1
  exact ⟨(hfirst version).2 unread, hnone (by decide), hawaits⟩

open WithheldExample in
/-- A wait ends while the message is left to the operator, with the answer to the query. -/
theorem unread_answer_not_withheld : ¬∀ (calls : List SimDevice.Call) (apdu : Bytes),
    (((SimDevice.new engine .manual).after calls).engine.update apdu).1 = .ok .pending →
      (((SimDevice.new engine .manual).after calls).submit apdu).receive.1 = none := by
  intro h
  cases h [.submit query] message update_message

end HardwareSigner
