import Mathlib.Data.List.Induction

/-! Logs of what was done, with the latest entry at the end, and what is said of an entry by the
ones before it. Both notions grow with the log by a look at its new entry alone. -/

namespace HardwareSigner.Log

variable {α : Type} {P Q : α → Prop} {R : List α → α → Prop} {log before since : List α} {x y : α}

/-- There was an entry of one kind, and all after it are of another. -/
def Since (P Q : α → Prop) (log : List α) : Prop :=
  ∃ before x since, log = before ++ x :: since ∧ P x ∧ ∀ y ∈ since, Q y

/-- Each entry goes with the ones before it. -/
def Each (R : List α → α → Prop) (log : List α) : Prop :=
  ∀ before x since, log = before ++ x :: since → R before x

theorem concat_eq_split : log ++ [x] = before ++ y :: since ↔
    (log = before ∧ x = y ∧ since = []) ∨
      ∃ between, since = between ++ [x] ∧ log = before ++ y :: between := by
  constructor
  · intro h
    rcases List.eq_nil_or_concat since with rfl | ⟨between, last, rfl⟩
    · obtain ⟨rfl, hx⟩ := List.append_inj' h rfl
      exact .inl ⟨rfl, List.head_eq_of_cons_eq hx, rfl⟩
    · rw [List.concat_eq_append, ← List.cons_append, ← List.append_assoc] at h
      obtain ⟨rfl, hx⟩ := List.append_inj' h rfl
      obtain rfl := List.head_eq_of_cons_eq hx
      exact .inr ⟨between, List.concat_eq_append, rfl⟩
  · rintro (⟨rfl, rfl, rfl⟩ | ⟨between, rfl, rfl⟩)
    · rfl
    · simp

theorem not_since_nil : ¬Since P Q [] := by
  rintro ⟨before, x, since, hlog, -⟩
  simp at hlog

theorem each_nil : Each R [] := by
  intro before x since hlog
  simp at hlog

theorem since_concat : Since P Q (log ++ [x]) ↔ P x ∨ Q x ∧ Since P Q log := by
  constructor
  · rintro ⟨before, y, since, hlog, hy, hsince⟩
    rcases concat_eq_split.1 hlog with ⟨rfl, rfl, rfl⟩ | ⟨between, rfl, rfl⟩
    · exact .inl hy
    · rw [List.forall_mem_append, List.forall_mem_singleton] at hsince
      exact .inr ⟨hsince.2, before, y, between, rfl, hy, hsince.1⟩
  · rintro (hx | ⟨hx, before, y, since, rfl, hy, hsince⟩)
    · exact ⟨log, x, [], rfl, hx, List.forall_mem_nil _⟩
    · refine ⟨before, y, since ++ [x], by simp, hy, ?_⟩
      rw [List.forall_mem_append, List.forall_mem_singleton]
      exact ⟨hsince, hx⟩

theorem Since.mono {P' Q' : α → Prop} (h : Since P Q log) (hP : ∀ x, P x → P' x)
    (hQ : ∀ x, Q x → Q' x) : Since P' Q' log := by
  obtain ⟨before, x, since, hlog, hx, hsince⟩ := h
  exact ⟨before, x, since, hlog, hP x hx, fun y hy => hQ y (hsince y hy)⟩

/-- Two kinds of entries that were each the latest one of some kind were one entry. -/
theorem Since.meet {P' Q' : α → Prop} (h : Since P Q log) (h' : Since P' Q' log)
    (hPQ : ∀ x, P x → ¬Q' x) (hQP : ∀ x, P' x → ¬Q x) : ∃ x, P x ∧ P' x := by
  induction log using List.reverseRecOn with
  | nil => exact absurd h not_since_nil
  | append_singleton log x ih =>
    rcases since_concat.1 h with hP | ⟨hQ, hlog⟩
    · rcases since_concat.1 h' with hP' | ⟨hQ', -⟩
      · exact ⟨x, hP, hP'⟩
      · exact absurd hQ' (hPQ x hP)
    · rcases since_concat.1 h' with hP' | ⟨-, hlog'⟩
      · exact absurd hQ (hQP x hP')
      · exact ih hlog hlog'

theorem each_concat : Each R (log ++ [x]) ↔ Each R log ∧ R log x := by
  constructor
  · intro h
    refine ⟨?_, h log x [] rfl⟩
    rintro before y since rfl
    exact h before y (since ++ [x]) (by simp)
  · rintro ⟨hlog, hx⟩ before y since heq
    rcases concat_eq_split.1 heq with ⟨rfl, rfl, rfl⟩ | ⟨between, rfl, hbefore⟩
    · exact hx
    · exact hlog before y between hbefore

theorem Each.mono {R' : List α → α → Prop} (h : Each R log)
    (hR : ∀ before x, R before x → R' before x) : Each R' log :=
  fun before x since hlog => hR before x (h before x since hlog)

theorem each_cons :
    Each R (x :: log) ↔ R [] x ∧ Each (fun before y => R (x :: before) y) log := by
  constructor
  · intro h
    refine ⟨h [] x log rfl, ?_⟩
    rintro before y since rfl
    exact h (x :: before) y since rfl
  · rintro ⟨hx, hlog⟩ before y since heq
    rcases List.cons_eq_append_iff.1 heq with ⟨rfl, hy⟩ | ⟨rest, rfl, hrest⟩
    · obtain rfl := List.head_eq_of_cons_eq hy
      exact hx
    · exact hlog rest y since hrest

end HardwareSigner.Log
