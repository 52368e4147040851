import HardwareSigner.Client.Program

/-! What holds at the end of a program whatever the link does. A link may react to every frame and
to every wait in any way, so a property is asked of all leaves of the tree; `Always.run` brings it
back to a run on one link. -/

namespace HardwareSigner

namespace Program

variable {α β : Type} {P Q : α → Prop}

/-- The property holds at every end, however the link reacts on the way there. -/
def Always (P : α → Prop) : Program α → Prop
  | done a => P a
  | acquire next => next.Always P
  | release next => next.Always P
  | submit _ _ next => ∀ r, (next r).Always P
  | receive _ next => ∀ r, (next r).Always P

theorem Always.mono {p : Program α} (h : p.Always P) (hPQ : ∀ a, P a → Q a) : p.Always Q := by
  induction p with
  | done a => exact hPQ a h
  | acquire next ih => exact ih h
  | release next ih => exact ih h
  | submit limit apdu next ih => exact fun r => ih r (h r)
  | receive limit next ih => exact fun r => ih r (h r)

theorem Always.and {p : Program α} (hP : p.Always P) (hQ : p.Always Q) :
    p.Always fun a => P a ∧ Q a := by
  induction p with
  | done a => exact ⟨hP, hQ⟩
  | acquire next ih => exact ih hP hQ
  | release next ih => exact ih hP hQ
  | submit limit apdu next ih => exact fun r => ih r (hP r) (hQ r)
  | receive limit next ih => exact fun r => ih r (hP r) (hQ r)

@[simp] theorem always_bind {R : β → Prop} (p : Program α) (f : α → Program β) :
    (p.bind f).Always R ↔ p.Always fun a => (f a).Always R := by
  induction p with
  | done a => exact Iff.rfl
  | acquire next ih => exact ih
  | release next ih => exact ih
  | submit limit apdu next ih => exact forall_congr' ih
  | receive limit next ih => exact forall_congr' ih

theorem always_true (p : Program α) : p.Always fun _ => True := by
  induction p with
  | done a => trivial
  | acquire next ih => exact ih
  | release next ih => exact ih
  | submit limit apdu next ih => exact ih
  | receive limit next ih => exact ih

/-- A run on one link takes one way through the tree. -/
theorem Always.run {τ : Type} [Transport τ] {p : Program α} {t t' : τ} {a : α}
    (h : p.Always P) (hr : p.run t = (some a, t')) : P a := by
  induction p generalizing t with
  | done b =>
    obtain ⟨rfl, -⟩ : b = a ∧ t = t' := by simpa [Program.run] using hr
    exact h
  | acquire next ih => exact ih h hr
  | release next ih => exact ih h hr
  | submit limit apdu next ih => exact ih _ (h _) hr
  | receive limit next ih =>
    simp only [Program.run] at hr
    split at hr
    · cases hr
    · exact ih _ (h _) hr

/-- What follows a program may be exchanged for what does the same at each of its ends. -/
theorem bind_congr {p : Program α} {f g : α → Program β} (h : p.Always P)
    (hfg : ∀ a, P a → f a = g a) : p.bind f = p.bind g := by
  induction p with
  | done a => exact hfg a h
  | acquire next ih => exact congrArg acquire (ih h)
  | release next ih => exact congrArg release (ih h)
  | submit limit apdu next ih => exact congrArg (submit limit apdu) (funext fun r => ih r (h r))
  | receive limit next ih => exact congrArg (receive limit) (funext fun r => ih r (h r))

end Program

namespace Exchange

variable {α β : Type}

/-- The property holds of every value that the exchange can end with. -/
def Yields (P : α → Prop) (p : Exchange α) : Prop :=
  p.run.Always fun r => ∀ a, r = .ok a → P a

variable {P : α → Prop} {Q : β → Prop}

theorem yields_pure {a : α} (h : P a) : Yields P (pure a) := by
  rintro b ⟨⟩
  exact h

theorem yields_throw (e : ClientError) : Yields P (throw e : Exchange α) := by
  rintro b ⟨⟩

/-- Values come out of a sequence only through a value of its first part. -/
theorem Yields.bind {p : Exchange α} {f : α → Exchange β} (hp : Yields P p)
    (hf : ∀ a, P a → Yields Q (f a)) : Yields Q (p >>= f) := by
  refine (Program.always_bind _ _).2 (hp.mono ?_)
  rintro (e | a) h
  · rintro b ⟨⟩
  · exact hf a (h a rfl)

theorem yields_lift {p : Program α} (h : p.Always P) : Yields P (ExceptT.lift p) := by
  refine (Program.always_bind _ _).2 (h.mono ?_)
  rintro a ha b ⟨⟩
  exact ha

theorem Yields.releasing {p : Exchange α} (h : Yields P p) : Yields P (releasing p) :=
  (Program.always_bind _ _).2 h

theorem bind_congr {p : Exchange α} {f g : α → Exchange β} (h : Yields P p)
    (hfg : ∀ a, P a → f a = g a) : p >>= f = p >>= g := by
  refine Program.bind_congr h ?_
  rintro (e | a) ha
  · rfl
  · exact hfg a (ha a rfl)

theorem Yields.run {τ : Type} [Transport τ] {p : Exchange α} {t t' : τ} {a : α}
    (h : Yields P p) (hr : p.run.run t = (some (.ok a), t')) : P a :=
  Program.Always.run h hr a rfl

end Exchange

end HardwareSigner
