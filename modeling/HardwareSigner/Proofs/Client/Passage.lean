import HardwareSigner.Client.Program

/-! What passes between a wallet and its link, in the order in which it does. A program is judged by
the logs that it can leave, one for every way the link may react, and every run on a link that is
written down leaves one of them. -/

namespace HardwareSigner

inductive Passage where
  | submitted (apdu : Bytes) (r : Sent)
  | received (r : Received)
  deriving DecidableEq

/-- A link on which everything that passes is written down. -/
structure Recorded (τ : Type) where
  link : τ
  log : List Passage

instance {τ : Type} [Transport τ] : Transport (Recorded τ) where
  submit l apdu :=
    let (r, link) := Transport.submit l.link apdu
    (r, ⟨link, l.log ++ [.submitted apdu r]⟩)
  receive l :=
    let (r, link) := Transport.receive l.link
    (r, ⟨link, l.log ++ [.received r]⟩)

namespace Program

variable {α β : Type} {Q R : List Passage → α → Prop}

/-- The program waits for a bounded time only, and however the link reacts, the log that it leaves
goes with the value that it ends in. -/
def Logs (Q : List Passage → α → Prop) : Program α → Prop
  | done a => Q [] a
  | acquire next => Logs Q next
  | release next => Logs Q next
  | submit _ apdu next => ∀ r, Logs (fun log a => Q (.submitted apdu r :: log) a) (next r)
  | receive limit next =>
    limit ≠ none ∧ ∀ r, Logs (fun log a => Q (.received r :: log) a) (next r)

theorem Logs.mono {p : Program α} (h : Logs Q p) (hQR : ∀ log a, Q log a → R log a) :
    Logs R p := by
  induction p generalizing Q R with
  | done a => exact hQR [] a h
  | acquire next ih => exact ih h hQR
  | release next ih => exact ih h hQR
  | submit limit apdu next ih => exact fun r => ih r (h r) fun log a => hQR _ a
  | receive limit next ih => exact ⟨h.1, fun r => ih r (h.2 r) fun log a => hQR _ a⟩

theorem logs_bind {R : List Passage → β → Prop} (p : Program α) (f : α → Program β) :
    Logs R (p.bind f) ↔ Logs (fun log a => Logs (fun more b => R (log ++ more) b) (f a)) p := by
  induction p generalizing R with
  | done a => exact Iff.rfl
  | acquire next ih => exact ih
  | release next ih => exact ih
  | submit limit apdu next ih => exact forall_congr' fun r => ih r
  | receive limit next ih => exact and_congr_right fun _ => forall_congr' fun r => ih r

variable {τ : Type} [Transport τ]

/-- What is written down of a run comes after what was there before, and it is one of the logs that
the program can leave. The run is the one on the link itself. -/
theorem Logs.run {p : Program α} (h : Logs Q p) (t : τ) (before : List Passage) :
    ∃ a t' log, p.run (Recorded.mk t before) = (some a, ⟨t', before ++ log⟩) ∧
      p.run t = (some a, t') ∧ Q log a := by
  induction p generalizing Q t before with
  | done a => exact ⟨a, t, [], by rw [List.append_nil]; rfl, rfl, h⟩
  | acquire next ih => exact ih h t before
  | release next ih => exact ih h t before
  | submit limit apdu next ih =>
    obtain ⟨a, t', log, hrecorded, hrun, hlog⟩ :=
      ih (Transport.submit t apdu).1 (h _) (Transport.submit t apdu).2
        (before ++ [.submitted apdu (Transport.submit t apdu).1])
    refine ⟨a, t', .submitted apdu (Transport.submit t apdu).1 :: log, ?_, hrun, hlog⟩
    rw [List.append_assoc] at hrecorded
    exact hrecorded
  | receive limit next ih =>
    obtain ⟨hlimit, h⟩ := h
    obtain ⟨a, t', log, hrecorded, hrun, hlog⟩ :=
      ih (Transport.receive t).1 (h _) (Transport.receive t).2
        (before ++ [.received (Transport.receive t).1])
    refine ⟨a, t', .received (Transport.receive t).1 :: log, ?_, ?_, hlog⟩
    · rw [List.append_assoc] at hrecorded
      exact (if_neg fun hwaits => hlimit hwaits.2).trans hrecorded
    · exact (if_neg fun hwaits => hlimit hwaits.2).trans hrun

end Program

end HardwareSigner
