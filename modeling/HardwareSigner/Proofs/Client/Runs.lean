import HardwareSigner.Client.Program
import HardwareSigner.Proofs.Wire.Records

/-! What an exchange gives on a link that does its part: a step that succeeds leads on to the next
one, with the link as the step left it. -/

namespace HardwareSigner

namespace ClientError

@[simp] theorem checkStatus_ok : checkStatus StatusWord.ok.code = .ok () := rfl

end ClientError

namespace Exchange

variable {α β τ : Type} [Transport τ] {t t' t'' : τ}

theorem run_bind {p : Exchange α} {a : α} (h : p.run.run t = (some (.ok a), t'))
    (f : α → Exchange β) : (p >>= f).run.run t = (f a).run.run t' := by
  have hp : Program.run p t = (some (.ok a), t') := h
  refine (Program.run_bind _ _ t).trans ?_
  rw [hp]
  rfl

theorem run_bind_error {p : Exchange α} {e : ClientError}
    (h : p.run.run t = (some (.error e), t')) (f : α → Exchange β) :
    (p >>= f).run.run t = (some (.error e), t') := by
  have hp : Program.run p t = (some (.error e), t') := h
  refine (Program.run_bind _ _ t).trans ?_
  rw [hp]
  rfl

/-- A sequence that comes to its end has a first part that did. -/
theorem run_bind_eq_ok {p : Exchange α} {f : α → Exchange β} {b : β}
    (h : (p >>= f).run.run t = (some (.ok b), t'')) :
    ∃ a t', p.run.run t = (some (.ok a), t') ∧ (f a).run.run t' = (some (.ok b), t'') := by
  rcases hp : p.run.run t with ⟨_ | e | a, t'⟩
  · have hwaits : (p >>= f).run.run t = (none, t') := by
      refine (Program.run_bind _ _ t).trans ?_
      have hp : Program.run p t = (none, t') := hp
      rw [hp]
    rw [hwaits] at h
    cases h
  · rw [run_bind_error hp] at h
    cases h
  · rw [run_bind hp] at h
    exact ⟨a, t', rfl, h⟩

theorem run_lift (r : Except ClientError α) (t : τ) : (lift r).run.run t = (some r, t) := rfl

theorem run_program {p : Program α} {a : α} (h : p.run t = (some a, t')) :
    (ExceptT.lift p : Exchange α).run.run t = (some (.ok a), t') := by
  refine (Program.run_bind _ _ t).trans ?_
  rw [h]
  rfl

theorem run_releasing (p : Exchange α) (t : τ) : (releasing p).run.run t = p.run.run t := by
  refine (Program.run_bind _ _ t).trans ?_
  rcases hp : p.run.run t with ⟨_ | r, t'⟩ <;> rfl

theorem run_holding {p : Exchange α} {r : Except ClientError α}
    (h : p.run.run t = (some r, t')) : (holding p).run.run t = (some r, t') :=
  (run_releasing p t).trans h

theorem run_taking {p : Exchange α} {a : α} (h : p.run.run t = (some (.ok a), t')) :
    (taking p).run.run t = (some (.ok a), t') := by
  refine (Program.run_bind _ _ t).trans ?_
  rw [h]
  rfl

theorem run_taking_error {p : Exchange α} {e : ClientError}
    (h : p.run.run t = (some (.error e), t')) :
    (taking p).run.run t = (some (.error e), t') := by
  refine (Program.run_bind _ _ t).trans ?_
  rw [h]
  rfl

theorem run_submit {f : Frame} (limit : Nat)
    (h : Transport.submit t f.layout = (.accepted, t')) :
    (submit limit f).run.run t = (some (.ok ()), t') := by
  simp only [submit, ExceptT.run_mk, Program.run, h]

theorem run_receive {raw : Bytes} (limit : Option Nat) (late : ClientError)
    (h : Transport.receive t = (.answer raw, t')) :
    (receive limit late).run.run t = (some (.ok raw), t') := by
  simp [receive, Program.run, h]

theorem answerOf_layout (a : Answer) : answerOf a.layout = .ok a := by
  simp [answerOf, Reader.decode]

/-- A success carries its data. -/
theorem run_request {f : Frame} {data : Bytes} (limit : Nat)
    (hsubmit : Transport.submit t f.layout = (.accepted, t'))
    (hreceive : Transport.receive t' = (.answer (Answer.mk data StatusWord.ok.code).layout, t'')) :
    (request limit f).run.run t = (some (.ok data), t'') := by
  have hanswer : (answer limit f).run.run t = (some (.ok ⟨data, StatusWord.ok.code⟩), t'') := by
    unfold answer
    rw [run_bind (run_submit limit hsubmit), run_bind (run_receive _ _ hreceive), run_lift,
      answerOf_layout]
  unfold request
  rw [run_bind hanswer, ClientError.checkStatus_ok, run_bind (run_lift _ _)]
  rfl

end Exchange

end HardwareSigner
