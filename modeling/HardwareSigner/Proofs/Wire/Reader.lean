import Mathlib.Data.List.Forall2
import HardwareSigner.Error

/-! Readers take values off the front of a byte string, one after the other; each step that succeeds
is opened by one lemma. -/

namespace HardwareSigner

theorem bind_eq_ok {ε α β : Type} {x : Except ε α} {f : α → Except ε β} {b : β} :
    x >>= f = .ok b ↔ ∃ a, x = .ok a ∧ f a = .ok b := by
  cases x with
  | error e => exact ⟨nofun, nofun⟩
  | ok a => exact ⟨fun h => ⟨a, rfl, h⟩, by rintro ⟨_, ⟨⟩, h⟩; exact h⟩

theorem mapM_eq_ok {ε α β : Type} {f : α → Except ε β} {as : List α} {bs : List β} :
    as.mapM f = .ok bs ↔ List.Forall₂ (fun a b => f a = .ok b) as bs := by
  induction as generalizing bs with
  | nil =>
    rw [List.mapM_nil, List.forall₂_nil_left_iff]
    constructor
    · rintro ⟨⟩
      rfl
    · rintro rfl
      rfl
  | cons a as ih =>
    simp only [List.mapM_cons, bind_eq_ok, ih, List.forall₂_cons_left_iff]
    constructor
    · rintro ⟨b, hb, bs, hbs, ⟨⟩⟩
      exact ⟨b, bs, hb, hbs, rfl⟩
    · rintro ⟨b, bs, hb, hbs, rfl⟩
      exact ⟨b, hb, bs, hbs, rfl⟩

theorem liftWire_eq_ok {α : Type} {r : Except WireError α} {a : α} :
    ClientError.liftWire r = .ok a ↔ r = .ok a := by
  cases r with
  | error e => exact ⟨nofun, nofun⟩
  | ok b =>
    constructor
    · rintro ⟨⟩
      rfl
    · rintro ⟨⟩
      rfl

namespace Reader

variable {α β : Type}

theorem bind_ok {r : Reader α} {f : α → Reader β} {b rest : Bytes} {c : β} :
    (r >>= f) b = .ok (c, rest) ↔ ∃ a mid, r b = .ok (a, mid) ∧ f a mid = .ok (c, rest) := by
  refine bind_eq_ok.trans ⟨?_, ?_⟩
  · rintro ⟨⟨a, mid⟩, hr, hf⟩
    exact ⟨a, mid, hr, hf⟩
  · rintro ⟨a, mid, hr, hf⟩
    exact ⟨(a, mid), hr, hf⟩

theorem bind_of_ok {r : Reader α} {f : α → Reader β} {b rest : Bytes} {a : α} (h : r b = .ok (a, rest)) :
    (r >>= f) b = f a rest := by
  change (r b >>= fun p => f p.1 p.2) = f a rest
  rw [h]
  rfl

theorem bind_error {r : Reader α} {f : α → Reader β} {b : Bytes} {e : WireError} (h : r b = .error e) :
    (r >>= f) b = .error e := by
  change (r b >>= fun p => f p.1 p.2) = .error e
  rw [h]
  rfl

theorem decodeAll_eq_ok {r : Reader α} {b : Bytes} {a : α} :
    r.decodeAll b = .ok a ↔ r b = .ok (a, []) := by
  unfold decodeAll
  split <;> simp_all

end Reader

end HardwareSigner
