import HardwareSigner.Log
import HardwareSigner.Proofs.Client.Grip

/-! Flows that need the operator are not disturbed. Each task stands with the link as its calls have
it, so a task in a flow has the link, and as long as it has it no other task gets to use it. -/

namespace HardwareSigner

namespace TaskStep

variable {ι : Type}

/-- The first frame of a flow is handed over. -/
def Opens (x : TaskStep ι) : Prop :=
  ∃ apdu r, x.act = .submitted apdu r ∧ x.call.openingFrame = some apdu

/-- The call ends a flow, and nothing is open after it. -/
def Ends (x : TaskStep ι) : Prop := ∃ reply, x.act = .returned reply [] ∧ x.call.Ends reply

end TaskStep

namespace Tasks

variable {ι : Type}

/-- The task began a flow that it did not end. -/
def InFlow (log : List (TaskStep ι)) (i : ι) : Prop :=
  Log.Since (fun x => x.task = i ∧ x.Opens) (fun x => ¬(x.task = i ∧ x.Ends)) log

/-- The link is not used while another task is in a flow. -/
def Exclusive (before : List (TaskStep ι)) (x : TaskStep ι) : Prop :=
  x.OnLink → ∀ i, i ≠ x.task → ¬InFlow before i

variable {log : List (TaskStep ι)} {x : TaskStep ι} {i j : ι}

theorem inFlow_concat : InFlow (log ++ [x]) i ↔
    (x.task = i ∧ x.Opens) ∨ ¬(x.task = i ∧ x.Ends) ∧ InFlow log i := Log.since_concat

theorem InFlow.of_concat (h : InFlow (log ++ [x]) j) (hx : j ≠ x.task) : InFlow log j := by
  rcases inFlow_concat.1 h with ⟨heq, -⟩ | ⟨-, h⟩
  · exact absurd heq.symm hx
  · exact h

/-- A task stands so with the link. -/
structure Stands (s : Tasks ι) (i : ι) (g : Grip) : Prop where
  has_iff : g.has = true ↔ s.holder = some i
  flows : InFlow s.log i → g = .flowing ∨ g = .spent

/-- Between calls the task has the link exactly for what is open. In a call it stands with the link
in a way from which the rest of the call keeps to the rules. -/
def TaskSound (s : Tasks ι) (i : ι) : Prop :=
  match (s.task i).running with
  | none => s.Stands i (.ofHeld (s.task i).held) ∧ (s.task i).held.length ≤ 1 ∧
      ∀ x ∈ (s.task i).held, x.Fits
  | some (c, p) => (∀ r, p ≠ .done r) ∧
      ∃ g, s.Stands i g ∧ Program.Guarded c.openingFrame c.Leaves g p

structure Sound (s : Tasks ι) : Prop where
  task : ∀ i, s.TaskSound i
  log : Log.Each Exclusive s.log

variable {s s' : Tasks ι} {g : Grip} {c : ClientCall} {p : ClientCall.Course}

theorem Stands.of_same (h : s.Stands j g) (hholder : s'.holder = some j ↔ s.holder = some j)
    (hflow : InFlow s'.log j → InFlow s.log j) : s'.Stands j g :=
  ⟨h.has_iff.trans hholder.symm, fun hj => h.flows (hflow hj)⟩

theorem Stands.flowing (h : s.Stands i g) (hg : g.has = true) (hflow : InFlow s.log i) :
    g = .flowing := by
  rcases h.flows hflow with rfl | rfl
  · rfl
  · cases hg

theorem TaskSound.of_same (h : s.TaskSound j) (htask : s'.task j = s.task j)
    (hholder : s'.holder = some j ↔ s.holder = some j)
    (hflow : InFlow s'.log j → InFlow s.log j) : s'.TaskSound j := by
  unfold TaskSound at h ⊢
  rw [htask]
  cases hrunning : (s.task j).running with
  | none =>
    rw [hrunning] at h
    exact ⟨h.1.of_same hholder hflow, h.2⟩
  | some cp =>
    rw [hrunning] at h
    obtain ⟨hne, g, hstands, hguarded⟩ := h
    exact ⟨hne, g, hstands.of_same hholder hflow, hguarded⟩

/-- A task in a flow has the link. -/
theorem TaskSound.holder_eq (h : s.TaskSound i) (hflow : InFlow s.log i) : s.holder = some i := by
  unfold TaskSound at h
  cases hrunning : (s.task i).running with
  | none =>
    rw [hrunning] at h
    have hg := (h.1.flows hflow).resolve_right Grip.ofHeld_ne_spent
    exact h.1.has_iff.1 (hg ▸ rfl)
  | some cp =>
    rw [hrunning] at h
    obtain ⟨hne, g, hstands, hguarded⟩ := h
    obtain rfl | rfl := hstands.flows hflow
    · exact hstands.has_iff.1 rfl
    · obtain ⟨r, hr⟩ := hguarded.done_of_spent
      exact absurd hr (hne r)

variable [DecidableEq ι]

theorem proceed_of_ne_done (hp : ∀ r, p ≠ .done r) : s.proceed i c p =
    { s with task := Function.update s.task i { s.task i with running := some (c, p) } } := by
  cases p with
  | done r => exact absurd rfl (hp r)
  | _ => rfl

theorem sound_returned {reply : Reply} {held : List Held}
    (hothers : ∀ j, j ≠ i → s.TaskSound j) (hlog : Log.Each Exclusive s.log)
    (hstands : s.Stands i g) (hleaves : c.Leaves g (reply, held)) :
    (s.proceed i c (.done (reply, held))).Sound := by
  refine ⟨fun j => ?_, Log.each_concat.2 ⟨hlog, fun h => absurd h id⟩⟩
  by_cases hj : j = i
  · subst hj
    simp only [TaskSound, proceed, Function.update_self]
    refine ⟨⟨?_, ?_⟩, hleaves.length_le, hleaves.fits⟩
    · exact (Grip.has_ofHeld.trans hleaves.has_iff.symm).trans hstands.has_iff
    · intro hflow
      rcases inFlow_concat.1 hflow with ⟨-, _, _, hact, -⟩ | ⟨hends, hflow⟩
      · cases hact
      rcases hstands.flows hflow with rfl | rfl
      · exact .inl (Grip.ofHeld_of_ne (hleaves.has_iff.1 rfl))
      · -- the link was given back after a flow, so this call ends it
        have hnone : held = [] := by
          by_contra hne
          cases hleaves.has_iff.2 hne
        subst hnone
        exact absurd ⟨rfl, reply, rfl, hleaves.ends rfl⟩ hends
  · refine (hothers j hj).of_same (Function.update_of_ne hj _ _) Iff.rfl ?_
    exact fun hflow => hflow.of_concat hj

/-- A call that keeps to the rules from where the task stands may go on, or return. -/
theorem sound_proceed (hothers : ∀ j, j ≠ i → s.TaskSound j) (hlog : Log.Each Exclusive s.log)
    (hstands : s.Stands i g) (hp : Program.Guarded c.openingFrame c.Leaves g p) :
    (s.proceed i c p).Sound := by
  by_cases hdone : ∃ r, p = .done r
  · obtain ⟨⟨reply, held⟩, rfl⟩ := hdone
    exact sound_returned hothers hlog hstands hp
  · have hne : ∀ r, p ≠ .done r := fun r hr => hdone ⟨r, hr⟩
    rw [proceed_of_ne_done hne]
    refine ⟨fun j => ?_, hlog⟩
    by_cases hj : j = i
    · subst hj
      simp only [TaskSound, Function.update_self]
      exact ⟨hne, g, hstands.of_same Iff.rfl id, hp⟩
    · exact (hothers j hj).of_same (Function.update_of_ne hj _ _) Iff.rfl id

theorem sound_onLink {act : Act} {g' : Grip} (hs : s.Sound) (hi : s.holder = some i)
    (hg : g'.has = true)
    (hflow : InFlow (s.note i c act).log i → g' = .flowing)
    (hp : Program.Guarded c.openingFrame c.Leaves g' p) :
    ((s.note i c act).proceed i c p).Sound := by
  refine sound_proceed (fun j hj => ?_) ?_ ⟨?_, fun h => .inl (hflow h)⟩ hp
  · exact (hs.task j).of_same rfl Iff.rfl fun h => h.of_concat hj
  · refine Log.each_concat.2 ⟨hs.log, fun _ j hj hother => ?_⟩
    have hholder := (hs.task j).holder_eq hother
    exact hj (Option.some.inj (hholder.symm.trans hi))
  · exact iff_of_true hg hi

/-- A task that takes the free link was not in a flow. -/
theorem Sound.acquired {next : ClientCall.Course} (hs : s.Sound) (hstands : s.Stands i g)
    (hnone : s.holder = none)
    (hp : Program.Guarded c.openingFrame c.Leaves g (.acquire next)) :
    ({ s with holder := some i }.proceed i c next).Sound := by
  have hno : g.has ≠ true := fun hg => by cases hnone.symm.trans (hstands.has_iff.1 hg)
  have hfree : g = .free := by
    cases g with
    | free => rfl
    | spent => exact absurd rfl hp.1
    | held => exact absurd rfl hno
    | flowing => exact absurd rfl hno
  refine sound_proceed (fun j hj => ?_) hs.log ⟨?_, fun hflow => ?_⟩ (hp.2 hfree)
  · refine (hs.task j).of_same rfl ?_ id
    simp [hnone, Ne.symm hj]
  · exact iff_of_true rfl rfl
  · have hflow := hstands.flows hflow
    simp [hfree] at hflow

/-- A task that gives the link back in a flow has only to end the flow. -/
theorem Sound.released {next : ClientCall.Course} (hs : s.Sound) (hstands : s.Stands i g)
    (hp : Program.Guarded c.openingFrame c.Leaves g (.release next)) :
    ({ s with holder := none }.proceed i c next).Sound := by
  obtain ⟨hhas, hnext⟩ := hp
  have hholder := hstands.has_iff.1 hhas
  refine sound_proceed (fun j hj => ?_) hs.log ⟨?_, fun hflow => ?_⟩ hnext
  · refine (hs.task j).of_same rfl ?_ id
    simp [hholder, Ne.symm hj]
  · simp
  · obtain rfl := hstands.flowing hhas hflow
    exact .inr rfl

/-- A frame that is handed over begins a flow, or leaves the task in the one it is in. -/
theorem Sound.submitted {limit : Nat} {apdu : Bytes} {next : Sent → ClientCall.Course}
    (hs : s.Sound) (hstands : s.Stands i g)
    (hp : Program.Guarded c.openingFrame c.Leaves g (.submit limit apdu next)) (r : Sent) :
    ((s.note i c (.submitted apdu r)).proceed i c (next r)).Sound := by
  obtain ⟨hhas, hnext⟩ := hp
  refine sound_onLink hs (hstands.has_iff.1 hhas) (Grip.has_sent.trans hhas) (fun hflow => ?_)
    (hnext r)
  rcases inFlow_concat.1 hflow with ⟨-, apdu', r', hact, hopening⟩ | ⟨-, hflow⟩
  · cases hact
    have hopening : c.openingFrame = some apdu := hopening
    rw [hopening]
    exact Grip.sent_opening hhas
  · obtain rfl := hstands.flowing hhas hflow
    rfl

theorem Sound.received {limit : Option Nat} {next : Received → ClientCall.Course}
    (hs : s.Sound) (hstands : s.Stands i g)
    (hp : Program.Guarded c.openingFrame c.Leaves g (.receive limit next)) (r : Received) :
    ((s.note i c (.received r)).proceed i c (next r)).Sound := by
  obtain ⟨hhas, hnext⟩ := hp
  refine sound_onLink hs (hstands.has_iff.1 hhas) hhas (fun hflow => ?_) (hnext r)
  rcases inFlow_concat.1 hflow with ⟨-, apdu, r', hact, -⟩ | ⟨-, hflow⟩
  · cases hact
  · exact hstands.flowing hhas hflow

theorem Sound.advance (hs : s.Sound) (t : Turn ι)
    (hrunning : (s.task t.task).running = some (c, p)) : (s.advance t c p).Sound := by
  have hi := hs.task t.task
  unfold TaskSound at hi
  rw [hrunning] at hi
  obtain ⟨hne, g, hstands, hguarded⟩ := hi
  cases p with
  | done r => exact absurd rfl (hne r)
  | acquire next =>
    rw [Tasks.advance]
    split
    · exact hs.acquired hstands ‹_› hguarded
    · exact hs
  | release next => exact hs.released hstands hguarded
  | submit limit apdu next => exact hs.submitted hstands hguarded t.sent
  | receive limit next =>
    rw [Tasks.advance]
    split
    · exact hs
    · exact hs.received hstands hguarded t.received

theorem Sound.turn (hs : s.Sound) (h : Handle) (t : Turn ι) : (s.turn h t).Sound := by
  unfold Tasks.turn
  cases hrunning : (s.task t.task).running with
  | some cp => exact hs.advance t hrunning
  | none =>
    have hi := hs.task t.task
    unfold TaskSound at hi
    rw [hrunning] at hi
    obtain ⟨hstands, hlen, hfits⟩ := hi
    cases (s.task t.task).calls with
    | nil => exact hs
    | cons c calls =>
      refine sound_proceed (fun j hj => ?_) hs.log (hstands.of_same Iff.rfl id)
        (h.guarded_call c hlen hfits)
      exact (hs.task j).of_same (Function.update_of_ne hj _ _) Iff.rfl id

omit [DecidableEq ι] in
theorem sound_start (calls : ι → List ClientCall) : (start calls).Sound where
  task i := by
    refine ⟨⟨?_, fun h => absurd h Log.not_since_nil⟩, Nat.zero_le 1, nofun⟩
    exact ⟨nofun, nofun⟩
  log := Log.each_nil

theorem sound_run (h : Handle) (calls : ι → List ClientCall) (schedule : List (Turn ι)) :
    ((start calls).run h schedule).Sound := by
  suffices ∀ s : Tasks ι, s.Sound → (s.run h schedule).Sound from this _ (sound_start calls)
  induction schedule with
  | nil => exact fun s hs => hs
  | cons t schedule ih => exact fun s hs => ih (s.turn h t) (hs.turn h t)

/-- However many tasks share a handle, whatever they call, in whatever order they take their steps
and however the link reacts: between the first frame of a flow and the next use of the link by
another task there is the step that ends the flow. -/
theorem signing_exclusive (h : Handle) (calls : ι → List ClientCall) (schedule : List (Turn ι))
    {before between after : List (TaskStep ι)} {a b : TaskStep ι}
    (hlog : ((start calls).run h schedule).log = before ++ a :: (between ++ b :: after))
    (ha : a.Opens) (hb : b.OnLink) (hne : b.task ≠ a.task) :
    ∃ c ∈ between, c.task = a.task ∧ c.Ends := by
  by_contra hno
  have hexclusive :=
    (sound_run h calls schedule).log (before ++ a :: between) b after (by simp [hlog])
  refine hexclusive hb a.task hne.symm ⟨before, a, between, rfl, ⟨rfl, ha⟩, ?_⟩
  exact fun c hc hends => hno ⟨c, hc, hends⟩

end Tasks

namespace ExclusiveExample

def handle : Handle := ⟨Secp256k1.system, {}⟩

def path : DerivationPath := ⟨[7], by simp⟩

/-- One task has a key confirmed and gives up the wait, the other one asks for the version. -/
def calls : Bool → List ClientCall
  | false => [.confirmPublicKey path, .drop]
  | true => [.version]

/-- The second task asks for the link while the first one waits for the operator. -/
def schedule : List (Turn Bool) :=
  [false, false, false, true, true, false, false, true, true].map fun i => ⟨i, .accepted, .silent⟩

def confirmFrame : Bytes := [appClass, Instruction.getPublicKey.code, 1, 0, 5, 1, 0, 0, 0, 7]

def versionFrame : Bytes := [appClass, Instruction.getVersion.code, 0, 0, 0]

def first : TaskStep Bool := ⟨false, .confirmPublicKey path, .submitted confirmFrame .accepted⟩

def between : List (TaskStep Bool) :=
  [⟨false, .confirmPublicKey path, .returned .asked [.key (handle.pendingOn .publicKey)]⟩,
    ⟨false, .drop, .returned (.ended .dropped) []⟩]

def second : TaskStep Bool := ⟨true, .version, .submitted versionFrame .accepted⟩

theorem log_schedule : ((Tasks.start calls).run handle schedule).log =
    [] ++ first :: (between ++ second :: []) := rfl

theorem opens_first : first.Opens := ⟨confirmFrame, .accepted, rfl, rfl⟩

end ExclusiveExample

open ExclusiveExample in
theorem signing_exclusive_confirmation :
    first.Opens ∧ second.OnLink ∧ ∃ c ∈ between, c.task = false ∧ c.Ends :=
  ⟨opens_first, trivial, Tasks.signing_exclusive handle calls schedule log_schedule opens_first
    trivial nofun⟩

end HardwareSigner
