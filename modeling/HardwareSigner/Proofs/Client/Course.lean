import HardwareSigner.Client.Handle
import HardwareSigner.Log
import HardwareSigner.Proofs.Client.Passage
import HardwareSigner.Proofs.Wire.Reader

/-! Courses that exchanges take. Frames go out in one order; each waits for the answer to the one
before it, which has to be good, and the last one may wait for nothing. `Course` has a case for
each thing that can happen next, and what is said of whole exchanges is read off these cases.
Programs are put together from parts for which some of the frames pass. -/

namespace HardwareSigner

def Passage.submissions (log : List Passage) : List Bytes :=
  log.filterMap fun
    | .submitted apdu _ => some apdu
    | .received _ => none

namespace ClientError

/-- What ended an exchange, unless it came to its end. -/
def fault? {α : Type} : Except ClientError α → Option ClientError
  | .ok _ => none
  | .error e => some e

theorem fault?_eq_none {α : Type} {r : Except ClientError α} :
    fault? r = none ↔ ∃ a, r = .ok a := by
  cases r with
  | error e => exact ⟨nofun, nofun⟩
  | ok a => exact ⟨fun _ => ⟨a, rfl⟩, fun _ => rfl⟩

def ofStatus (code : UInt16) : ClientError :=
  match StatusWord.ofCode? code with
  | some s => .status s
  | none => .unknownStatus code

theorem checkStatus_eq (code : UInt16) :
    checkStatus code = if code = StatusWord.ok.code then .ok () else .error (ofStatus code) := by
  split
  · rename_i hok
    rw [hok]
    rfl
  · rename_i hne
    unfold checkStatus ofStatus
    split
    · rename_i hcode
      have hfind := List.find?_some hcode
      exact absurd (eq_of_beq hfind).symm hne
    · rename_i hcode
      rw [hcode]
    · rename_i hcode
      rw [hcode]

end ClientError

namespace Exchange

def dataOf (raw : Bytes) : Except ClientError Bytes := do
  let a ← answerOf raw
  ClientError.checkStatus a.status
  pure a.data

theorem dataOf_of_answer {raw : Bytes} {a : Answer} (h : answerOf raw = .ok a) : dataOf raw =
    if a.status = StatusWord.ok.code then .ok a.data
    else .error (ClientError.ofStatus a.status) := by
  have hdata : dataOf raw = ClientError.checkStatus a.status >>= fun _ => pure a.data := by
    unfold dataOf
    rw [h]
    rfl
  rw [hdata, ClientError.checkStatus_eq]
  split <;> rfl

theorem dataOf_eq_ok {raw data : Bytes} : dataOf raw = .ok data ↔
    ∃ a : Answer, answerOf raw = .ok a ∧ a.status = StatusWord.ok.code ∧ a.data = data := by
  cases h : answerOf raw with
  | error e =>
    refine ⟨fun hdata => ?_, by rintro ⟨a, ⟨⟩, -⟩⟩
    unfold dataOf at hdata
    rw [h] at hdata
    cases hdata
  | ok a =>
    rw [dataOf_of_answer h]
    constructor
    · intro hdata
      split at hdata
      · exact ⟨a, rfl, ‹_›, Except.ok.inj hdata⟩
      · cases hdata
    · rintro ⟨_, ⟨⟩, hstatus, rfl⟩
      exact if_pos hstatus

end Exchange

namespace Frame

def judge (f : Frame) (raw : Bytes) : Except ClientError Unit := do
  let data ← Exchange.dataOf raw
  if f.ins = Instruction.getPublicKey.code then
    let _ ← Completion.decodeKey data

/-- The answer is a success, with a key in it where one was asked for. -/
def MetBy (f : Frame) (raw : Bytes) : Prop :=
  ∃ a : Answer, Exchange.answerOf raw = .ok a ∧ a.status = StatusWord.ok.code ∧
    (f.ins = Instruction.getPublicKey.code → ∃ k, Completion.decodeKey a.data = .ok k)

variable {f : Frame} {raw : Bytes}

theorem judge_of_ne (h : f.ins ≠ Instruction.getPublicKey.code) :
    f.judge raw = (Exchange.dataOf raw).map fun _ => () := by
  simp only [judge, if_neg h]
  cases Exchange.dataOf raw <;> rfl

theorem judge_of_key (h : f.ins = Instruction.getPublicKey.code) :
    f.judge raw = (Exchange.dataOf raw >>= Completion.decodeKey).map fun _ => () := by
  simp only [judge, if_pos h]
  cases Exchange.dataOf raw with
  | error e => rfl
  | ok data =>
    change (Completion.decodeKey data >>= fun _ => pure ()) = (Completion.decodeKey data).map _
    cases Completion.decodeKey data <;> rfl

theorem judge_of_status {a : Answer} (ha : Exchange.answerOf raw = .ok a)
    (hstatus : a.status ≠ StatusWord.ok.code) :
    f.judge raw = .error (ClientError.ofStatus a.status) := by
  unfold judge
  rw [Exchange.dataOf_of_answer ha, if_neg hstatus]
  rfl

theorem judge_eq_ok : f.judge raw = .ok () ↔ f.MetBy raw := by
  have hunit : ∀ {α : Type} {c : Except ClientError α},
      c.map (fun _ => ()) = .ok () ↔ ∃ a, c = .ok a := by
    rintro α (e | a)
    · exact ⟨nofun, nofun⟩
    · exact ⟨fun _ => ⟨a, rfl⟩, fun _ => rfl⟩
  by_cases hkey : f.ins = Instruction.getPublicKey.code
  · rw [judge_of_key hkey, hunit]
    simp only [bind_eq_ok, Exchange.dataOf_eq_ok]
    constructor
    · rintro ⟨k, _, ⟨a, ha, hstatus, rfl⟩, hk⟩
      exact ⟨a, ha, hstatus, fun _ => ⟨k, hk⟩⟩
    · rintro ⟨a, ha, hstatus, hk⟩
      obtain ⟨k, hk⟩ := hk hkey
      exact ⟨k, a.data, ⟨a, ha, hstatus, rfl⟩, hk⟩
  · rw [judge_of_ne hkey, hunit]
    simp only [Exchange.dataOf_eq_ok]
    constructor
    · rintro ⟨_, a, ha, hstatus, rfl⟩
      exact ⟨a, ha, hstatus, fun h => absurd h hkey⟩
    · rintro ⟨a, ha, hstatus, -⟩
      exact ⟨a.data, a, ha, hstatus, rfl⟩

end Frame

namespace Exchange

/-- Every frame was handed over and met by its answer before the next one. -/
inductive Answered : List Frame → List Passage → Prop
  | nil : Answered [] []
  | cons {f : Frame} {raw : Bytes} {fs : List Frame} {log : List Passage} (h : f.MetBy raw)
      (hs : Answered fs log) :
      Answered (f :: fs) (.submitted f.layout .accepted :: .received (.answer raw) :: log)

/-- The link did not take the frame. -/
inductive Unsent (f : Frame) : List Passage → ClientError → Prop
  | failed (e : ClientError) : Unsent f [.submitted f.layout (.failed e)] e
  | silent : Unsent f [.submitted f.layout .silent] .requestTimeout

/-- The link took the frame, and no answer came or not one that it asked for. -/
inductive Unmet (f : Frame) : List Passage → ClientError → Prop
  | failed (e : ClientError) :
      Unmet f [.submitted f.layout .accepted, .received (.failed e)] e
  | silent : Unmet f [.submitted f.layout .accepted, .received .silent] .requestTimeout
  | judged {raw : Bytes} {e : ClientError} (h : f.judge raw = .error e) :
      Unmet f [.submitted f.layout .accepted, .received (.answer raw)] e

/-- What passes for frames in this order, and the error that it ends in, if any. Behind the last
frame there is the error `stop`, or else that frame closes the list and is not waited for. -/
inductive Course (stop : Option ClientError) :
    List Frame → List Passage → Option ClientError → Prop
  | closed {f : Frame} (hstop : stop = none) : Course stop [f] [.submitted f.layout .accepted] none
  | unsent {f : Frame} {fs : List Frame} {log : List Passage} {e : ClientError}
      (h : Unsent f log e) : Course stop (f :: fs) log (some e)
  | unmet {f : Frame} {fs : List Frame} {log : List Passage} {e : ClientError}
      (hopen : stop = none → fs ≠ []) (h : Unmet f log e) : Course stop (f :: fs) log (some e)
  | unframed {e : ClientError} (hstop : stop = some e) : Course stop [] [] (some e)
  | met {f : Frame} {raw : Bytes} {fs : List Frame} {log : List Passage} {r : Option ClientError}
      (hopen : stop = none → fs ≠ []) (h : f.MetBy raw) (hrest : Course stop fs log r) :
      Course stop (f :: fs) (.submitted f.layout .accepted :: .received (.answer raw) :: log) r

/-- Why an exchange ends in this error: after frames that were met the next one is not sent or not
met, or there is none and the list breaks off. -/
inductive Fails (stop : Option ClientError) : List Frame → List Passage → ClientError → Prop
  | unsent {done : List Frame} {f : Frame} {rest : List Frame} {before last : List Passage}
      {e : ClientError} (hdone : Answered done before) (h : Unsent f last e) :
      Fails stop (done ++ f :: rest) (before ++ last) e
  | unmet {done : List Frame} {f : Frame} {rest : List Frame} {before last : List Passage}
      {e : ClientError} (hdone : Answered done before) (hopen : stop = none → rest ≠ [])
      (h : Unmet f last e) : Fails stop (done ++ f :: rest) (before ++ last) e
  | unframed {fs : List Frame} {log : List Passage} {e : ClientError} (hdone : Answered fs log)
      (hstop : stop = some e) : Fails stop fs log e

/-- What passes for some frames at the front: all of them are met, or one of them ends it all, and
whatever frames there were behind it. -/
def Opening {α : Type} (stop : Option ClientError) (fs : List Frame) (log : List Passage) :
    Except ClientError α → Prop
  | .ok _ => Answered fs log
  | .error e => ∀ gs, (stop = none → gs ≠ []) → Course stop (fs ++ gs) log (some e)

/-- A part of an exchange that has these frames met, or ends with one of them. -/
def Opens {α : Type} (stop : Option ClientError) (fs : List Frame) (p : Exchange α) : Prop :=
  Program.Logs (Opening stop fs) p.run

/-- An exchange for which these frames pass, to its end. -/
def Follows {α : Type} (stop : Option ClientError) (fs : List Frame) (p : Exchange α) : Prop :=
  Program.Logs (fun log r => Course stop fs log (ClientError.fault? r)) p.run

variable {α β : Type} {stop : Option ClientError} {fs gs : List Frame} {log more : List Passage}
  {r : Option ClientError} {p : Exchange α} {f : α → Exchange β}

theorem Answered.append (h : Answered fs log) (h' : Answered gs more) :
    Answered (fs ++ gs) (log ++ more) := by
  induction h with
  | nil => exact h'
  | cons hmet _ ih => exact .cons hmet ih

theorem Answered.course (h : Answered fs log) (hopen : stop = none → gs ≠ [])
    (h' : Course stop gs more r) : Course stop (fs ++ gs) (log ++ more) r := by
  induction h with
  | nil => exact h'
  | cons hmet _ ih =>
    exact .met (fun hstop => List.append_ne_nil_of_right_ne_nil _ (hopen hstop)) hmet ih

theorem logs_bind {Q : List Passage → Except ClientError β → Prop}
    (h : Program.Logs (fun log r => match r with
      | .ok a => Program.Logs (fun more b => Q (log ++ more) b) (f a).run
      | .error e => Q log (.error e)) p.run) : Program.Logs Q (p >>= f).run := by
  refine (Program.logs_bind _ _).2 (h.mono ?_)
  rintro log (e | a) h
  · change Q (log ++ []) (.error e)
    rw [List.append_nil]
    exact h
  · exact h

theorem logs_releasing {Q : List Passage → Except ClientError α → Prop}
    (h : Program.Logs Q p.run) : Program.Logs Q (releasing p).run := by
  refine (Program.logs_bind _ _).2 (h.mono ?_)
  intro log r h
  change Q (log ++ []) r
  rwa [List.append_nil]

theorem opens_pure (a : α) : Opens stop [] (pure a : Exchange α) := .nil

theorem logs_taking {Q : List Passage → Except ClientError α → Prop}
    (h : Program.Logs Q p.run) : Program.Logs Q (taking p).run := by
  refine (Program.logs_bind _ _).2 (h.mono ?_)
  rintro log (e | a) h
  · change Q (log ++ []) (.error e)
    rwa [List.append_nil]
  · change Q (log ++ []) (.ok a)
    rwa [List.append_nil]

theorem Opens.bind (hp : Opens stop fs p) (hf : ∀ a, Opens stop gs (f a)) :
    Opens stop (fs ++ gs) (p >>= f) := by
  refine logs_bind (Program.Logs.mono hp ?_)
  rintro log (e | a) h
  · intro hs hopen
    rw [List.append_assoc]
    exact h _ fun hstop => List.append_ne_nil_of_right_ne_nil _ (hopen hstop)
  · refine Program.Logs.mono (hf a) ?_
    rintro more (e | b) h'
    · intro hs hopen
      rw [List.append_assoc]
      exact h.course (fun hstop => List.append_ne_nil_of_right_ne_nil _ (hopen hstop))
        (h' hs hopen)
    · exact h.append h'

theorem Opens.map (hp : Opens stop fs p) (g : α → β) : Opens stop fs (g <$> p) := by
  refine (Program.logs_bind _ _).2 (Program.Logs.mono hp ?_)
  rintro log (e | a) h
  · change Opening stop fs (log ++ []) (.error e : Except ClientError β)
    rw [List.append_nil]
    exact h
  · change Opening stop fs (log ++ []) (.ok (g a))
    rw [List.append_nil]
    exact h

theorem Opens.follows (hp : Opens stop fs p) (hopen : stop = none → gs ≠ [])
    (hf : ∀ a, Follows stop gs (f a)) : Follows stop (fs ++ gs) (p >>= f) := by
  refine logs_bind (Program.Logs.mono hp ?_)
  rintro log (e | a) h
  · exact h gs hopen
  · exact Program.Logs.mono (hf a) fun more r h' => h.course hopen h'

theorem Follows.pure (hp : Follows stop fs p) (b : β) :
    Follows stop fs (p >>= fun _ => pure b) := by
  refine logs_bind (Program.Logs.mono hp ?_)
  rintro log (e | a) h
  · exact h
  · change Course stop fs (log ++ []) none
    rw [List.append_nil]
    exact h

/-- What passes for a frame that is handed over and waited for, and what is made of the answer. -/
def Reply (f : Frame) (judge : Bytes → Except ClientError α) (log : List Passage) :
    Except ClientError α → Prop
  | .ok a => ∃ raw, log = [.submitted f.layout .accepted, .received (.answer raw)] ∧
      judge raw = .ok a
  | .error e => Unsent f log e ∨
      log = [.submitted f.layout .accepted, .received (.failed e)] ∨
      log = [.submitted f.layout .accepted, .received .silent] ∧ e = .requestTimeout ∨
      ∃ raw, log = [.submitted f.layout .accepted, .received (.answer raw)] ∧
        judge raw = .error e

theorem reply_answer {f : Frame} {judge : Bytes → Except ClientError α} (raw : Bytes) :
    Reply f judge [.submitted f.layout .accepted, .received (.answer raw)] (judge raw) := by
  cases h : judge raw with
  | ok a => exact ⟨raw, rfl, h⟩
  | error e => exact .inr (.inr (.inr ⟨raw, rfl, h⟩))

def Replies (f : Frame) (judge : Bytes → Except ClientError α) (p : Exchange α) : Prop :=
  Program.Logs (Reply f judge) p.run

theorem replies_answer (limit : Nat) (f : Frame) : Replies f answerOf (answer limit f) := by
  rintro (_ | e | _)
  · refine ⟨nofun, ?_⟩
    rintro (raw | e | _)
    · exact reply_answer raw
    · exact .inr (.inl rfl)
    · exact .inr (.inr (.inl ⟨rfl, rfl⟩))
  · exact .inl (.failed e)
  · exact .inl .silent

theorem Replies.bind {f : Frame} {judge : Bytes → Except ClientError α} (hp : Replies f judge p)
    (g : α → Except ClientError β) :
    Replies f (fun raw => judge raw >>= g) (p >>= fun a => lift (g a)) := by
  refine logs_bind (Program.Logs.mono hp ?_)
  rintro log (e | a) h
  · obtain h | h | h | ⟨raw, hlog, hraw⟩ := h
    · exact .inl h
    · exact .inr (.inl h)
    · exact .inr (.inr (.inl h))
    · exact .inr (.inr (.inr ⟨raw, hlog, congrArg (· >>= g) hraw⟩))
  · obtain ⟨raw, rfl, hraw⟩ := h
    have hreply : Reply f (fun raw => judge raw >>= g) _ (judge raw >>= g) := reply_answer raw
    rw [hraw] at hreply
    exact hreply

theorem replies_request (limit : Nat) (f : Frame) : Replies f dataOf (request limit f) := by
  have h := (replies_answer limit f).bind fun a =>
    ClientError.checkStatus a.status >>= fun _ => pure a.data
  have hsame : (fun a : Answer => (lift (ClientError.checkStatus a.status) >>= fun _ =>
      pure a.data : Exchange Bytes)) =
      fun a => lift (ClientError.checkStatus a.status >>= fun _ => pure a.data) := by
    funext a
    cases ClientError.checkStatus a.status <;> rfl
  unfold request
  rw [hsame]
  exact h

/-- The wallet goes on from an answer only if the frame is met by it. -/
theorem Replies.opens {f : Frame} {judge : Bytes → Except ClientError α} (hp : Replies f judge p)
    (hf : ∀ raw, f.judge raw = (judge raw).map fun _ => ()) : Opens stop [f] p := by
  refine Program.Logs.mono hp ?_
  rintro log (e | a) h
  · intro gs hopen
    obtain h | rfl | ⟨rfl, rfl⟩ | ⟨raw, rfl, hraw⟩ := h
    · exact .unsent h
    · exact .unmet hopen (.failed e)
    · exact .unmet hopen .silent
    · exact .unmet hopen (.judged (by rw [hf, hraw]; rfl))
  · obtain ⟨raw, rfl, hraw⟩ := h
    exact .cons (Frame.judge_eq_ok.1 (by rw [hf, hraw]; rfl)) .nil

end Exchange

namespace Exchange.Course

variable {stop : Option ClientError} {fs done rest : List Frame}
  {log before after : List Passage}
  {r : Option ClientError} {f last : Frame} {apdu raw : Bytes} {x : Sent} {e : ClientError}

theorem submissions (h : Course stop fs log r) :
    Passage.submissions log <+: fs.map Frame.layout := by
  induction h with
  | @closed f _ => exact List.prefix_refl _
  | @unsent f fs log e h => cases h <;> exact ⟨fs.map Frame.layout, rfl⟩
  | @unmet f fs log e _ h => cases h <;> exact ⟨fs.map Frame.layout, rfl⟩
  | unframed _ => exact List.prefix_refl _
  | met _ _ _ ih => exact List.cons_prefix_cons.2 ⟨rfl, ih⟩

/-- The frame that goes out is the next one, and those before it were met. -/
def Next (fs : List Frame) (before : List Passage) (p : Passage) : Prop :=
  ∀ apdu x, p = .submitted apdu x →
    ∃ done f rest, fs = done ++ f :: rest ∧ apdu = f.layout ∧ Answered done before

theorem next_first (f : Frame) (fs : List Frame) (x : Sent) :
    Next (f :: fs) [] (.submitted f.layout x) := by
  rintro _ _ ⟨⟩
  exact ⟨[], f, fs, rfl, rfl, .nil⟩

/-- A frame goes out only once those before it were met. -/
theorem answered (h : Course stop fs log r) : Log.Each (Next fs) log := by
  induction h with
  | @closed f _ => exact Log.each_cons.2 ⟨next_first f [] _, Log.each_nil⟩
  | @unsent f fs log e h =>
    cases h <;> exact Log.each_cons.2 ⟨next_first f fs _, Log.each_nil⟩
  | @unmet f fs log e _ h =>
    cases h <;> exact Log.each_cons.2 ⟨next_first f fs _, Log.each_cons.2 ⟨nofun, Log.each_nil⟩⟩
  | unframed _ => exact Log.each_nil
  | @met f raw fs log r _ hmet _ ih =>
    refine Log.each_cons.2 ⟨next_first f fs _, Log.each_cons.2 ⟨nofun, ih.mono ?_⟩⟩
    intro before p hnext apdu x hp
    obtain ⟨done, g, rest, rfl, hg, hdone⟩ := hnext apdu x hp
    exact ⟨f :: done, g, rest, rfl, hg, .cons hmet hdone⟩

/-- What comes to its end does so with the last frame on its way, all others being met. -/
theorem closing (h : Course stop fs log none) : stop = none ∧ ∃ done last before,
    fs = done ++ [last] ∧ Answered done before ∧
      log = before ++ [.submitted last.layout .accepted] := by
  generalize hr : (none : Option ClientError) = r at h
  induction h with
  | @closed f hstop => exact ⟨hstop, [], f, [], rfl, .nil, rfl⟩
  | unsent _ => cases hr
  | unmet _ _ => cases hr
  | unframed _ => cases hr
  | @met f raw fs log r _ hmet _ ih =>
    obtain ⟨hstop, done, last, before, rfl, hdone, rfl⟩ := ih hr
    exact ⟨hstop, f :: done, last, _, rfl, .cons hmet hdone, rfl⟩

theorem fails_cons (hmet : f.MetBy raw) (h : Fails stop fs log e) :
    Fails stop (f :: fs) (.submitted f.layout .accepted :: .received (.answer raw) :: log) e := by
  cases h with
  | unsent hdone h => exact .unsent (.cons hmet hdone) h
  | unmet hdone hopen h => exact .unmet (.cons hmet hdone) hopen h
  | unframed hdone hstop => exact .unframed (.cons hmet hdone) hstop

theorem fails (h : Course stop fs log (some e)) : Fails stop fs log e := by
  generalize hr : some e = r at h
  induction h with
  | closed _ => cases hr
  | @unsent f fs log e' h =>
    obtain rfl := Option.some.inj hr
    exact .unsent .nil h
  | @unmet f fs log e' hopen h =>
    obtain rfl := Option.some.inj hr
    exact .unmet .nil hopen h
  | unframed hstop =>
    obtain rfl := Option.some.inj hr
    exact .unframed .nil hstop
  | met _ hmet _ ih => exact fails_cons hmet (ih hr)

/-- A frame does go out once those before it were met. -/
theorem offered (h : Course stop fs log r) (hdone : Answered done before) (hlog : before <+: log)
    (hfs : fs = done ++ f :: rest) : ∃ x after, log = before ++ .submitted f.layout x :: after := by
  induction hdone generalizing fs log with
  | nil =>
    obtain rfl : fs = f :: rest := hfs
    cases h with
    | closed _ => exact ⟨_, _, rfl⟩
    | unsent h => cases h <;> exact ⟨_, _, rfl⟩
    | unmet _ h => cases h <;> exact ⟨_, _, rfl⟩
    | met _ _ _ => exact ⟨_, _, rfl⟩
  | @cons g raw fs' before hmet hdone ih =>
    obtain ⟨more, hlog⟩ := hlog
    cases h with
    | closed _ => simp at hlog
    | unsent h => cases h <;> simp at hlog
    | unmet _ h =>
      cases h with
      | failed e => simp at hlog
      | silent => simp at hlog
      | judged hjudge =>
        -- the answer that met the frame cannot be the one that was refused
        simp only [List.cons_append, List.cons.injEq] at hlog hfs
        obtain ⟨-, ⟨⟩, -⟩ := hlog
        rw [hfs.1, Frame.judge_eq_ok.2 hmet] at hjudge
        cases hjudge
    | unframed _ => simp at hfs
    | met _ _ hrest =>
      simp only [List.cons_append, List.cons.injEq] at hlog hfs
      obtain ⟨rfl, hfs⟩ := hfs
      obtain ⟨-, ⟨⟩, hlog⟩ := hlog
      obtain ⟨x, after, rfl⟩ := ih hrest ⟨more, hlog⟩ hfs
      exact ⟨x, after, rfl⟩

/-- Nothing is waited for behind the last frame, which decides how it ends. -/
theorem terminal (h : Course stop fs log r) (hstop : stop = none) (hdone : Answered done before)
    (hfs : fs = done ++ [last]) (hlog : log = before ++ .submitted last.layout x :: after) :
    after = [] ∧ (r = none ↔ x = .accepted) := by
  induction hdone generalizing fs log with
  | nil =>
    obtain rfl : fs = [last] := hfs
    cases h with
    | closed _ =>
      cases hlog
      exact ⟨rfl, by simp⟩
    | unsent h => cases h <;> cases hlog <;> exact ⟨rfl, by simp⟩
    | unmet hopen _ => exact absurd rfl (hopen hstop)
    | met hopen _ _ => exact absurd rfl (hopen hstop)
  | @cons f raw fs' before hmet hdone ih =>
    cases h with
    | closed _ => simp at hfs
    | unsent h => cases h <;> simp at hlog
    | unmet _ h => cases h <;> simp at hlog
    | unframed _ => simp at hfs
    | met _ _ hrest =>
      simp only [List.cons_append, List.cons.injEq] at hlog hfs
      exact ih hrest hfs.2 hlog.2.2

/-- An answer that is no success is the last thing that passes. -/
theorem refused {a : Answer} (h : Course stop fs log r)
    (hlog : log = before ++ .received (.answer raw) :: after)
    (ha : answerOf raw = .ok a) (hstatus : a.status ≠ StatusWord.ok.code) :
    after = [] ∧ r = some (ClientError.ofStatus a.status) := by
  induction h generalizing before with
  | @closed f _ =>
    rcases before with _ | ⟨y, before⟩
    · cases hlog
    · simp at hlog
  | @unsent f fs log e h =>
    rcases before with _ | ⟨y, before⟩
    · cases h <;> cases hlog
    · cases h <;> simp at hlog
  | @unmet f fs log e _ h =>
    rcases before with _ | ⟨y, _ | ⟨z, before⟩⟩
    · cases h <;> cases hlog
    · cases h with
      | failed e => cases hlog
      | silent => cases hlog
      | judged h =>
        cases hlog
        rw [Frame.judge_of_status ha hstatus] at h
        cases h
        exact ⟨rfl, rfl⟩
    · cases h <;> simp at hlog
  | unframed _ => simp at hlog
  | @met f raw' fs log r _ hmet _ ih =>
    rcases before with _ | ⟨y, _ | ⟨z, before⟩⟩
    · cases hlog
    · cases hlog
      obtain ⟨a', ha', hok, -⟩ := hmet
      obtain rfl : a = a' := Except.ok.inj (ha.symm.trans ha')
      exact absurd hok hstatus
    · simp only [List.cons_append, List.cons.injEq] at hlog
      exact ih hlog.2.2

end Exchange.Course

end HardwareSigner
