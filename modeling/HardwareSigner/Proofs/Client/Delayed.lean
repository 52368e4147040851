import HardwareSigner.Link.Delayed

/-! What a program gets to see on a link with a delay. A program takes one way through its tree: it
hands over frames, takes answers and ends. Whatever the program, the answers are the next ones in
the order of all the frames that were ever handed over, which need not be the answers to its own. -/

namespace HardwareSigner

namespace Program

variable {α : Type}

/-- A way through a program on a link that takes every frame: the frames that were handed over, the
answers that came and the end. A wait may be over without an answer if it has a bound. -/
def Trace : Program α → List Bytes → List Bytes → α → Prop
  | done b, fs, as, a => fs = [] ∧ as = [] ∧ b = a
  | acquire next, fs, as, a => next.Trace fs as a
  | release next, fs, as, a => next.Trace fs as a
  | submit _ apdu next, fs, as, a => ∃ rest, fs = apdu :: rest ∧ (next .accepted).Trace rest as a
  | receive limit next, fs, as, a =>
    (∃ raw rest, as = raw :: rest ∧ (next (.answer raw)).Trace fs rest a) ∨
      limit ≠ none ∧ (next .silent).Trace fs as a

end Program

namespace DelayedLink

variable {l l' : DelayedLink}

/-- Frames that come later do not change an answer. -/
theorem answerTo_append {n : Nat} {fs : List Bytes} (hdevice : l'.device = l.device)
    (hsent : l'.sent = l.sent ++ fs) (hn : n < l.sent.length) : l'.answerTo n = l.answerTo n := by
  unfold answerTo
  rw [hdevice, hsent, List.take_append_of_le_length hn]

structure After (l : DelayedLink) (fs as : List Bytes) (l' : DelayedLink) : Prop where
  device : l'.device = l.device
  sent : l'.sent = l.sent ++ fs
  delivered : l'.delivered = l.delivered + as.length
  /-- Answers are taken in turn, from the first one that was left. -/
  answers : ∀ i raw, as[i]? = some raw → raw = l'.answerTo (l.delivered + i)

theorem After.refl (l : DelayedLink) : l.After [] [] l where
  device := rfl
  sent := (List.append_nil _).symm
  delivered := rfl
  answers := nofun

theorem After.submit {apdu : Bytes} {fs as : List Bytes} (h : (l.submit apdu).After fs as l') :
    l.After (apdu :: fs) as l' where
  device := h.device
  sent := h.sent.trans (List.append_cons ..).symm
  delivered := h.delivered
  answers := h.answers

theorem receive_late (h : l.receive.1 = .silent) :
    l.receive.2 = { l with schedule := l.schedule.tail } := by
  unfold receive at h ⊢
  split
  · rename_i hc
    rw [if_pos hc] at h
    cases h
  · rfl

theorem receive_answer {raw : Bytes} (h : l.receive.1 = .answer raw) :
    l.delivered < l.sent.length ∧ raw = l.answerTo l.delivered ∧
      l.receive.2 = { l with delivered := l.delivered + 1, schedule := l.schedule.tail } := by
  unfold receive at h ⊢
  split
  · rename_i hc
    rw [if_pos hc] at h
    cases h
    exact ⟨hc.1, rfl, rfl⟩
  · rename_i hc
    rw [if_neg hc] at h
    cases h

theorem receive_ne_failed {e : ClientError} : l.receive.1 ≠ .failed e := by
  unfold receive
  split <;> simp

theorem After.late {fs as : List Bytes} {s : List Bool}
    (h : ({ l with schedule := s } : DelayedLink).After fs as l') : l.After fs as l' :=
  ⟨h.device, h.sent, h.delivered, h.answers⟩

theorem After.answer {fs as : List Bytes} {s : List Bool} (hlt : l.delivered < l.sent.length)
    (h : ({ l with delivered := l.delivered + 1, schedule := s } : DelayedLink).After fs as l') :
    l.After fs (l.answerTo l.delivered :: as) l' where
  device := h.device
  sent := h.sent
  delivered := by
    have hd : l'.delivered = l.delivered + 1 + as.length := h.delivered
    rw [List.length_cons]
    omega
  answers := by
    intro i raw hi
    cases i with
    | zero =>
      obtain rfl := Option.some.inj hi
      exact (answerTo_append h.device h.sent hlt).symm
    | succ i =>
      have hraw : raw = l'.answerTo (l.delivered + 1 + i) := h.answers i raw hi
      rwa [Nat.add_assoc, Nat.add_comm 1 i] at hraw

/-- A run takes one way through the program. -/
theorem trace_of_run {α : Type} {p : Program α} {a : α} (h : p.run l = (some a, l')) :
    ∃ fs as, p.Trace fs as a ∧ l.After fs as l' := by
  induction p generalizing l with
  | done b =>
    cases h
    exact ⟨[], [], ⟨rfl, rfl, rfl⟩, .refl _⟩
  | acquire next ih => exact ih h
  | release next ih => exact ih h
  | submit limit apdu next ih =>
    obtain ⟨fs, as, ht, hl⟩ := ih _ h
    exact ⟨apdu :: fs, as, ⟨fs, rfl, ht⟩, hl.submit⟩
  | receive limit next ih =>
    change (if l.receive.1 = .silent ∧ limit = none then (none, l.receive.2)
      else (next l.receive.1).run l.receive.2) = _ at h
    split at h
    · cases h
    rename_i hbound
    cases hr : l.receive.1 with
    | answer raw =>
      obtain ⟨hlt, rfl, hnext⟩ := receive_answer hr
      rw [hr, hnext] at h
      obtain ⟨fs, as, ht, hl⟩ := ih _ h
      exact ⟨fs, _, .inl ⟨_, as, rfl, ht⟩, hl.answer hlt⟩
    | failed e => exact absurd hr receive_ne_failed
    | silent =>
      rw [hr, receive_late hr] at h
      obtain ⟨fs, as, ht, hl⟩ := ih _ h
      exact ⟨fs, as, .inr ⟨fun hlimit => hbound ⟨hr, hlimit⟩, ht⟩, hl.late⟩

end DelayedLink

end HardwareSigner
