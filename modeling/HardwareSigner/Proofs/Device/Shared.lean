import HardwareSigner.Log
import HardwareSigner.Device.Shared
import HardwareSigner.Proofs.Device.Withheld

/-! Whose answers the clients of a shared device get. The device remembers the answer to the frame
that came last, and tells it to the first client that looks, so an answer reaches the client whose
frame it is for only if no other client hands a frame over before it is fetched. -/

namespace HardwareSigner

namespace SimDevice

variable {σ : Type} [KeySource σ] {d : SimDevice σ}

theorem respond_ready {policy : ApprovalPolicy} (hpolicy : policy ≠ .manual) (e : Engine σ)
    (apdu : Bytes) : ∃ r, (respond policy e apdu).1 = some r := by
  unfold respond
  rcases e.update apdu with ⟨s | b | _, e'⟩
  · exact ⟨_, rfl⟩
  · exact ⟨_, rfl⟩
  · cases policy with
    | manual => exact absurd rfl hpolicy
    | approve => exact ⟨_, rfl⟩
    | deny => exact ⟨_, rfl⟩

theorem response_submit (hpolicy : d.policy ≠ .manual) (apdu : Bytes) :
    (d.submit apdu).response = (respond d.policy d.engine apdu).1 := by
  obtain ⟨r, hr⟩ := respond_ready hpolicy d.engine apdu
  have hresponse := d.response_perform (.submit apdu)
  simpa [perform, leaves, hr] using hresponse

end SimDevice

namespace SharedDevice

open Exchanged

variable {ι σ : Type}

/-- The client has handed a frame over, and done nothing on the device since. -/
def Waiting (log : List (Exchanged ι)) (i : ι) : Prop :=
  Log.Since (fun x => ∃ apdu answer, x = handed i apdu answer) (fun x => x.client ≠ i) log

/-- A step that may come after these: a client hands a frame over if it does not wait, and there is
an answer to it; one that waits gets the answer to the frame that came right before. -/
def Follows (log : List (Exchanged ι)) : Exchanged ι → Prop
  | handed i _ answer => ¬Waiting log i ∧ ∃ raw, answer = some raw
  | fetched i raw => Waiting log i ∧ ∃ j apdu, log.getLast? = some (handed j apdu (some raw))

variable {log : List (Exchanged ι)} {x : Exchanged ι} {i j : ι}

theorem waiting_concat : Waiting (log ++ [x]) j ↔
    (∃ apdu answer, x = handed j apdu answer) ∨ x.client ≠ j ∧ Waiting log j := Log.since_concat

theorem waiting_handed {apdu : Bytes} {answer : Option Bytes} :
    Waiting (log ++ [handed i apdu answer]) j ↔ j = i ∨ Waiting log j := by
  rw [waiting_concat]
  by_cases hij : j = i
  · simp [hij]
  · simp [hij, Ne.symm hij, client]

theorem waiting_fetched {raw : Bytes} :
    Waiting (log ++ [fetched i raw]) j ↔ j ≠ i ∧ Waiting log j := by
  rw [waiting_concat]
  simp [client, ne_comm]

/-- What the device and the clients are in the middle of, as the log has it. -/
structure Sound (s : SharedDevice ι σ) : Prop where
  policy : s.device.policy ≠ .manual
  response : s.device.response = s.log.getLast?.bind ready?
  waits : ∀ i, s.waits i = true ↔ Waiting s.log i
  log : Log.Each Follows s.log

theorem sound_start (engine : Engine σ) {policy : ApprovalPolicy} (hpolicy : policy ≠ .manual)
    (frames : ι → List Bytes) : (start (.new engine policy) frames).Sound where
  policy := hpolicy
  response := rfl
  waits i := by
    constructor
    · intro h
      cases h
    · intro h
      exact absurd h Log.not_since_nil
  log := Log.each_nil

variable [KeySource σ] [DecidableEq ι] {s : SharedDevice ι σ}

theorem Sound.hand (hs : s.Sound) (hi : s.waits i = false) (apdu : Bytes) (rest : List Bytes) :
    (s.hand i apdu rest).Sound where
  policy := by
    change (s.device.perform (.submit apdu)).policy ≠ .manual
    rw [SimDevice.policy_perform]
    exact hs.policy
  response := by
    change (s.device.submit apdu).response = _
    rw [SimDevice.response_submit hs.policy, SharedDevice.hand, List.getLast?_concat]
    rfl
  waits j := by
    change Function.update s.waits i true j = true ↔ _
    rw [SharedDevice.hand, waiting_handed, ← hs.waits]
    by_cases hij : j = i
    · simp [hij]
    · simp [hij]
  log := by
    refine Log.each_concat.2 ⟨hs.log, ?_, SimDevice.respond_ready hs.policy _ _⟩
    rw [← hs.waits, hi]
    exact Bool.false_ne_true

omit [KeySource σ] in
theorem Sound.fetch (hs : s.Sound) (hi : s.waits i = true) {raw : Bytes}
    (hraw : s.device.response = some raw) : (s.fetch i raw).Sound where
  policy := hs.policy
  response := by
    rw [SharedDevice.fetch, List.getLast?_concat]
    rfl
  waits j := by
    change Function.update s.waits i false j = true ↔ _
    rw [SharedDevice.fetch, waiting_fetched, ← hs.waits]
    by_cases hij : j = i
    · simp [hij]
    · simp [hij]
  log := by
    refine Log.each_concat.2 ⟨hs.log, (hs.waits i).1 hi, ?_⟩
    obtain ⟨x, hx, hready⟩ := Option.bind_eq_some_iff.1 (hs.response.symm.trans hraw)
    cases x with
    | handed j apdu answer =>
      obtain rfl : answer = some raw := hready
      exact ⟨j, apdu, hx⟩
    | fetched j other => cases hready

theorem Sound.turn (hs : s.Sound) (i : ι) : (s.turn i).Sound := by
  unfold SharedDevice.turn
  cases hi : s.waits i with
  | true =>
    rw [if_pos rfl]
    split
    · exact hs.fetch hi ‹_›
    · exact hs
  | false =>
    rw [if_neg Bool.false_ne_true]
    split
    · exact hs.hand hi _ _
    · exact hs

theorem Sound.run (hs : s.Sound) (schedule : List ι) : (s.run schedule).Sound := by
  induction schedule generalizing s with
  | nil => exact hs
  | cons i schedule ih => exact ih (hs.turn i)

/-- However the clients take their steps, one that gets an answer gets the answer to its own frame
if nobody came in between, and otherwise the answer to the last frame that another client handed
over in between. An answer is either fetched by the very next step or lost to the frame of another
client. -/
theorem fetches_latest_answer (engine : Engine σ) {policy : ApprovalPolicy}
    (hpolicy : policy ≠ .manual) (frames : ι → List Bytes) (schedule : List ι)
    {s : SharedDevice ι σ} (hs : s = (start (.new engine policy) frames).run schedule) :
    (∀ before i raw since, s.log = before ++ fetched i raw :: since →
      ∃ earlier apdu answer between, before = earlier ++ handed i apdu (some answer) :: between ∧
        (∀ x ∈ between, x.client ≠ i) ∧
        (between = [] ∧ answer = raw ∨
          ∃ others j other, between = others ++ [handed j other (some raw)])) ∧
    ∀ before i apdu answer x since, s.log = before ++ handed i apdu answer :: x :: since →
      (∃ j raw, answer = some raw ∧ x = fetched j raw) ∨
        ∃ j other lost, j ≠ i ∧ x = handed j other lost := by
  have hlog : Log.Each Follows s.log := hs ▸ ((sound_start engine hpolicy frames).run schedule).log
  constructor
  · intro before i raw since hsplit
    obtain ⟨⟨earlier, x, between, rfl, ⟨apdu, answer, rfl⟩, hbetween⟩, j, other, hlast⟩ :=
      hlog before _ since hsplit
    -- the client's own frame was handed over under the same policy, so it has an answer
    have hown : Follows earlier (handed i apdu answer) :=
      hlog earlier _ (between ++ fetched i raw :: since) (by simp [hsplit])
    obtain ⟨-, own, rfl⟩ := hown
    refine ⟨earlier, apdu, own, between, rfl, hbetween, ?_⟩
    rcases List.eq_nil_or_concat between with rfl | ⟨others, last, rfl⟩
    · rw [List.getLast?_concat] at hlast
      cases hlast
      exact .inl ⟨rfl, rfl⟩
    · rw [List.concat_eq_append, ← List.cons_append, ← List.append_assoc,
        List.getLast?_concat] at hlast
      cases hlast
      exact .inr ⟨others, j, other, List.concat_eq_append⟩
  · intro before i apdu answer x since hsplit
    have hx : Follows (before ++ [handed i apdu answer]) x := hlog _ x since (by simp [hsplit])
    cases x with
    | handed j other lost =>
      have hj : ¬(j = i ∨ Waiting before j) := waiting_handed.not.1 hx.1
      exact .inr ⟨j, other, lost, fun h => hj (.inl h), rfl⟩
    | fetched j raw =>
      obtain ⟨-, j', other, hlast⟩ := hx
      rw [List.getLast?_concat] at hlast
      cases hlast
      exact .inl ⟨j, raw, rfl, rfl⟩

end SharedDevice

namespace SharedExample

def query : Bool → Bytes
  | false => [0xe0, 0x03, 0, 0, 0]
  | true => [0xe0, 0x04, 0, 0, 0]

def answer : Bool → Bytes
  | false => [1, 1, 0, 0x90, 0x00]
  | true => [75, 97, 115, 112, 97, 0x90, 0x00]

theorem automatic : ApprovalPolicy.approve ≠ .manual := nofun

def clients : SharedDevice Bool ReleaseExample.OneKey :=
  .start (.new WithheldExample.engine .approve) fun i => [query i]

/-- The second client comes between the two steps of the first one. -/
def schedule : List Bool := [false, true, false]

theorem log_schedule : (clients.run schedule).log =
    [.handed false (query false) (some (answer false)),
      .handed true (query true) (some (answer true)), .fetched false (answer true)] := rfl

end SharedExample

open SharedExample in
theorem fetches_latest_answer_of_two : ∃ earlier apdu own between,
    [.handed false (query false) (some (answer false)),
      .handed true (query true) (some (answer true))] =
        earlier ++ Exchanged.handed false apdu (some own) :: between ∧
      (∀ x ∈ between, x.client ≠ false) ∧
      (between = [] ∧ own = answer true ∨
        ∃ others j other, between = others ++ [.handed j other (some (answer true))]) :=
  (SharedDevice.fetches_latest_answer WithheldExample.engine automatic (fun i => [query i])
    schedule rfl).1 _ false (answer true) [] log_schedule

open SharedExample in
/-- The first client asks for the version and is told the name. -/
theorem answer_of_another_client : ¬∀ (schedule : List Bool) (before : List (Exchanged Bool))
    (i : Bool) (raw : Bytes) (since : List (Exchanged Bool)),
    (clients.run schedule).log = before ++ .fetched i raw :: since →
      ∃ apdu, Exchanged.handed i apdu (some raw) ∈ before := by
  intro h
  obtain ⟨apdu, hmem⟩ := h schedule [_, _] false (answer true) [] log_schedule
  simp [query, answer] at hmem

end HardwareSigner
