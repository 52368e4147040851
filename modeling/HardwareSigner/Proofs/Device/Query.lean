import HardwareSigner.Proofs.Device.KeyTable
import HardwareSigner.Proofs.Device.Release

/-! Queries: frames that are answered out of what the device is and not out of what it is in the
middle of. Accepted or refused, they leave the exchange under way as it is, though the one for a key
shares its handler with the one that displaces it. So a run may be read without them. -/

namespace HardwareSigner

/-- The frame asks for the version, a name, or a key that need not be confirmed. -/
def Frame.queries (f : Frame) : Bool :=
  if f.cla = appClass then
    match Instruction.ofCode? f.ins with
    | some .getVersion | some .getAppName => true
    | some .getPublicKey => f.p1 = 0
    | some .signTx | some .signMessage | none => false
  else f.cla = dashboardClass && f.ins = dashboardAppInfo

/-- The event is a query, whatever the device says to it. -/
def Event.queries : Event → Bool
  | frame apdu =>
    match Frame.read.decodeAll apdu with
    | .ok f => f.queries
    | .error _ => false
  | approval | denial => false

/-- What is left of a run without its queries. -/
def Event.deeds (evs : List Event) : List Event := evs.filter (!·.queries)

namespace Engine

variable {σ : Type} [KeySource σ]

theorem query_asks (e : Engine σ) (r : Except StatusWord Bytes) : e.Asks (e.query r).2 := by
  cases r <;> exact .refl e

/-- A key that need not be confirmed is told or refused, and no more than that. -/
theorem getPublicKey_asks (e : Engine σ) {f : Frame} (hp1 : f.p1 = 0) :
    e.Asks (e.getPublicKey f).2 := by
  unfold getPublicKey
  split
  · exact .refl e
  split
  · exact .refl e
  split
  · exact .refl e
  rename_i path _ _
  split
  · exact .refl e
  have hask := e.publicKey_asks path
  split <;> rename_i hkey <;> rw [hkey] at hask <;> exact hask

theorem update_asks (e : Engine σ) {apdu : Bytes} (h : (Event.frame apdu).queries = true) :
    e.Asks (e.update apdu).2 := by
  unfold update
  split
  · exact .refl e
  rename_i f hread
  simp only [Event.queries, hread, Frame.queries] at h
  split
  · rename_i hcla
    rw [if_pos hcla] at h
    split
    · rename_i ins hins
      rw [hins] at h
      cases ins with
      | getVersion =>
        simp only [command]
        split
        · exact .refl e
        · exact e.query_asks _
      | getAppName =>
        simp only [command]
        split
        · exact .refl e
        · exact e.query_asks _
      | getPublicKey => exact e.getPublicKey_asks (of_decide_eq_true h)
      | signTx => cases h
      | signMessage => cases h
    · exact .refl e
  split
  · split
    · exact e.query_asks _
    · exact .refl e
  · exact .refl e

theorem step_asks (e : Engine σ) {ev : Event} (h : ev.queries = true) :
    e.Asks (e.step ev).2 := by
  cases ev with
  | frame apdu => exact e.update_asks h
  | approval => cases h
  | denial => cases h

theorem step_of_queries (e : Engine KeyTable) {ev : Event} (h : ev.queries = true) :
    (e.step ev).2 = e := by
  have hask := e.step_asks h
  rw [hask.eq_with_keys, hask.keys.eq_of_constant fun _ => rfl]

theorem table_without_queries (e : Engine KeyTable) (evs : List Event) :
    e.trace (Event.deeds evs) = (e.trace evs).filter (fun x => !x.1.queries) ∧
      e.after (Event.deeds evs) = e.after evs := by
  induction evs generalizing e with
  | nil => exact ⟨rfl, rfl⟩
  | cons ev evs ih =>
    cases hq : ev.queries with
    | true =>
      obtain ⟨htrace, hafter⟩ := ih e
      have hdeeds : Event.deeds (ev :: evs) = Event.deeds evs :=
        List.filter_cons_of_neg (by simp [hq])
      rw [hdeeds, after_cons, trace, e.step_of_queries hq,
        List.filter_cons_of_neg (by simp [hq])]
      exact ⟨htrace, hafter⟩
    | false =>
      obtain ⟨htrace, hafter⟩ := ih (e.step ev).2
      have hdeeds : Event.deeds (ev :: evs) = ev :: Event.deeds evs :=
        List.filter_cons_of_pos (by simp [hq])
      rw [hdeeds, after_cons, after_cons, trace, trace, List.filter_cons_of_pos (by simp [hq]),
        htrace, hafter]
      exact ⟨rfl, rfl⟩

/-- A query leaves the engine as it is but for what the source was asked. If the source does not
answer otherwise for having been asked, then a run and what is left of it without its queries give
the same answers to all that is left, and leave the device in the middle of the same. -/
theorem undisturbed_by_queries (e : Engine σ) :
    (∀ ev : Event, ev.queries = true →
      (e.step ev).2 = { e with keys := (e.step ev).2.keys }) ∧
    (KeySource.Steady e.keys → ∀ evs : List Event,
      e.trace (Event.deeds evs) = (e.trace evs).filter (fun x => !x.1.queries) ∧
      e.after evs = { e.after (Event.deeds evs) with keys := (e.after evs).keys }) := by
  refine ⟨fun ev h => (e.step_asks h).eq_with_keys, fun hsteady evs => ?_⟩
  have hreads := hsteady.readsFrom
  obtain ⟨htrace, hafter⟩ := (e.tabled _).table_without_queries evs
  rw [trace_tabled hreads, trace_tabled hreads] at htrace
  rw [after_tabled hreads, after_tabled hreads] at hafter
  exact ⟨htrace, eq_of_tabled hafter.symm⟩

end Engine

namespace QueryExample

def queries : List Event :=
  [.frame [0xe0, 3, 0, 0, 0], .frame [0xe0, 4, 0, 0, 0], .frame [0xb0, 1, 0, 0, 0],
   .frame [0xe0, 5, 0, 0, 9, 2, 0x80, 0, 0, 44, 0x80, 1, 0xb2, 7], .frame [0xe0, 5, 0, 0, 1, 0]]

end QueryExample

open QueryExample ReleaseExample in
theorem undisturbed_by_queries_signing : KeySource.Steady keys ∧
    (Event.deeds (events.flatMap fun ev => ev :: queries) = events ∧
    ((Engine.new system config keys).after (events.flatMap fun ev => ev :: queries)).activity =
      .txPending staged) := by
  have hsteady : KeySource.Steady keys := KeySource.steady_of_constant fun _ => rfl
  have hdeeds : Event.deeds (events.flatMap fun ev => ev :: queries) = events := rfl
  obtain ⟨-, hafter⟩ := (Engine.undisturbed_by_queries (Engine.new system config keys)).2 hsteady
    (events.flatMap fun ev => ev :: queries)
  rw [hdeeds] at hafter
  refine ⟨hsteady, hdeeds, ?_⟩
  rw [hafter]
  decide

end HardwareSigner
