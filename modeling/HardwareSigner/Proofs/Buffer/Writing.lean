import HardwareSigner.Buffer.Fields
import HardwareSigner.Proofs.Buffer.Reading

/-! What is written into a buffer goes over its first bytes, piece behind piece, and leaves what is
behind it as it was. A field that the rest of the buffer is too short for is not written, and the
length is what is wrong. -/

namespace HardwareSigner.Buffer

/-- A buffer whose first bytes were written over. -/
def overlay (w buff : Bytes) : Bytes := w ++ buff.drop w.length

section Over

variable {w d buff : Bytes}

@[simp] theorem overlay_nil (buff : Bytes) : overlay [] buff = buff := rfl

theorem length_overlay (h : w.length ≤ buff.length) : (overlay w buff).length = buff.length := by
  rw [overlay, List.length_append, List.length_drop]
  omega

theorem take_overlay (w buff : Bytes) : (overlay w buff).take w.length = w := List.take_left

theorem drop_overlay (w buff : Bytes) : (overlay w buff).drop w.length = buff.drop w.length :=
  List.drop_left

theorem drop_add_overlay (w buff : Bytes) (n : Nat) :
    (overlay w buff).drop (w.length + n) = buff.drop (w.length + n) := by
  rw [← List.drop_drop, drop_overlay, List.drop_drop]

/-- What is written over the rest of a buffer stands behind what was written before. -/
theorem append_overlay (w d buff : Bytes) :
    w ++ overlay d (buff.drop w.length) = overlay (w ++ d) buff := by
  rw [overlay, overlay, List.drop_drop, List.length_append, List.append_assoc]

end Over

variable {α β : Type} {buff w w' w'' d : Bytes} {i n : Nat}

/-! ### Steps that fit -/

/-- Behind the bytes `w` a writer writes what makes `w'` of them. -/
def Lays (buff w : Bytes) (m : Writer α) (a : α) (w' : Bytes) : Prop :=
  m (overlay w buff) = .ok (a, overlay w' buff)

theorem Lays.bind {m : Writer α} {k : α → Writer β} {a : α} {c : β} (hm : Lays buff w m a w')
    (hk : Lays buff w' (k a) c w'') : Lays buff w (m >>= k) c w'' := by
  change (m (overlay w buff) >>= fun p => k p.1 p.2) = _
  rw [hm]
  exact hk

theorem Lays.pure (a : α) : Lays buff w (pure a) a w := rfl

theorem Lays.congr {m : Writer α} {a : α} (hm : Lays buff w m a w') (hw : w' = w'') :
    Lays buff w m a w'' := hw ▸ hm

theorem Lays.put {x : UInt8} (hi : i = w.length) (h : i < buff.length) :
    Lays buff w (put i x) () (w ++ [x]) := by
  subst hi
  have hlt : w.length < (overlay w buff).length := by rwa [length_overlay h.le]
  have hset : (overlay w buff).set w.length x = overlay (w ++ [x]) buff := by
    rw [overlay, List.set_append_right _ _ le_rfl, Nat.sub_self, List.drop_eq_getElem_cons h,
      List.set_cons_zero, overlay, List.append_assoc, List.length_append]
    rfl
  rw [Lays, Buffer.put, if_pos hlt, hset]

theorem Lays.copy (hi : i = w.length) (hn : n = d.length) (h : i + n ≤ buff.length) :
    Lays buff w (copy i n d) () (w ++ d) := by
  subst hi hn
  have hlen : (overlay w buff).length = buff.length := length_overlay (by omega)
  have hlt : w.length ≤ (overlay w buff).length ∧ d.length ≤ (overlay w buff).length - w.length := by
    omega
  rw [Lays, Buffer.copy, if_pos hlt, if_pos rfl, take_overlay, drop_add_overlay, overlay,
    List.length_append]

theorem Lays.discard {m : Writer α} {a : α} (hm : Lays buff w m a w') :
    Lays buff w (discard m) () w' := by
  change (m (overlay w buff) >>= fun p => Outcome.ok ((), p.2)) = _
  rw [hm]
  rfl

/-! ### Fields -/

/-- The bytes over the front of a buffer, if there are any and it has room for them. -/
def laid (x : Except WireError Bytes) (buff : Bytes) : Except WireError (Nat × Bytes) :=
  match x with
  | .ok d => if d.length ≤ buff.length then .ok (d.length, overlay d buff) else .error .invalidLength
  | .error _ => .error .invalidLength

theorem laid_of_le (h : d.length ≤ buff.length) :
    laid (.ok d) buff = .ok (d.length, overlay d buff) := if_pos h

theorem laid_of_lt (h : buff.length < d.length) : laid (.ok d) buff = .error .invalidLength :=
  if_neg (Nat.not_le.2 h)

theorem laid_cons_of_empty {x : UInt8} {y : Except WireError Bytes} (h : buff.length = 0) :
    laid (([x] ++ ·) <$> y) buff = .error .invalidLength := by
  cases y with
  | error e => rfl
  | ok d => exact laid_of_lt (by simp [h])

/-- A writer writes these bytes behind `w`, if there are any and the buffer has room for them. -/
def WritesAt (buff w : Bytes) (m : Writer Nat) (x : Except WireError Bytes) : Prop :=
  m (overlay w buff) = .of (laid ((w ++ ·) <$> x) buff)

def Writes (m : Writer Nat) (x : Except WireError Bytes) : Prop :=
  ∀ buff, m buff = .of (laid x buff)

theorem WritesAt.lays {m : Writer Nat} (hm : WritesAt buff w m (.ok d)) (hn : (w ++ d).length = n)
    (h : n ≤ buff.length) : Lays buff w m n (w ++ d) := by
  rw [Lays, hm]
  change Outcome.of (laid (.ok (w ++ d)) buff) = _
  rw [laid_of_le (hn ▸ h), hn]
  rfl

theorem Lays.writes {m : Writer α} {k : α → Writer Nat} {a : α} {x : Except WireError Bytes}
    (hm : Lays buff w m a w') (hk : WritesAt buff w' (k a) x) :
    (m >>= k) (overlay w buff) = .of (laid ((w' ++ ·) <$> x) buff) := by
  change (m (overlay w buff) >>= fun p => k p.1 p.2) = _
  rw [hm]
  exact hk

theorem Writes.of_at {m : Writer Nat} {x : Except WireError Bytes}
    (h : ∀ buff, WritesAt buff [] m x) : Writes m x := by
  intro buff
  have hx : (([] : Bytes) ++ ·) <$> x = x := by cases x <;> rfl
  rw [← overlay_nil buff, h buff, hx]
  rfl

/-- The room is judged before anything is written. -/
theorem Writes.of_room {m : Writer Nat} (hn : d.length = n)
    (hm : ∀ buff, n ≤ buff.length → Lays buff [] m n d) :
    Writes (do
      if (← room) < n then refuse .invalidLength
      m) (.ok d) := by
  intro buff
  change (if buff.length < n then refuse .invalidLength >>= _ else m : Writer Nat) buff = _
  by_cases h : buff.length < n
  · rw [if_pos h, laid_of_lt (by omega)]
    rfl
  · rw [if_neg h, laid_of_le (by omega), hn]
    exact hm buff (Nat.le_of_not_lt h)

/-- The length is counted before anything else is done. -/
theorem Writes.of_size {size : Except WireError Nat} {m : Nat → Writer Nat}
    {x : Except WireError Bytes} (hsize : size = x.map List.length)
    (hwrong : ∀ e, x = .error e → e = .invalidLength)
    (hm : ∀ d, x = .ok d → Writes (m d.length) (.ok d)) :
    Writes (StateT.lift (Outcome.of size) >>= m) x := by
  intro buff
  rw [hsize]
  cases x with
  | error e =>
    rw [hwrong e rfl]
    rfl
  | ok d => exact hm d rfl buff

theorem Writes.at {m : Writer Nat} {x : Except WireError Bytes} (hm : Writes m x)
    (hi : i = w.length) (hw : i ≤ buff.length) : WritesAt buff w (putAt i m) x := by
  subst hi
  have hin : w.length ≤ (overlay w buff).length := by rwa [length_overlay hw]
  change (within w.length m (overlay w buff) >>= _) = _
  rw [within, if_pos hin, drop_overlay, hm, take_overlay]
  cases x with
  | error e => rfl
  | ok d =>
    have hlen : (w ++ d).length = w.length + d.length := List.length_append
    by_cases hd : w.length + d.length ≤ buff.length
    · rw [laid_of_le (by rw [List.length_drop]; omega)]
      change Outcome.ok (w.length + d.length, w ++ overlay d _) = .of (laid (.ok (w ++ d)) buff)
      rw [laid_of_le (by omega), append_overlay, hlen]
      rfl
    · rw [laid_of_lt (by rw [List.length_drop]; omega)]
      change Outcome.error _ = .of (laid (.ok (w ++ d)) buff)
      rw [laid_of_lt (by omega)]
      rfl

theorem Writes.lays {m : Writer Nat} (hm : Writes m (.ok d)) (hi : i = w.length)
    (h : i + d.length ≤ buff.length) : Lays buff w (putAt i m) (i + d.length) (w ++ d) :=
  (hm.at hi (by omega)).lays (by rw [List.length_append, hi]) h

theorem Writes.at_bind {m : Writer Nat} {x : Except WireError Bytes} {k : Nat → Writer Nat}
    {y : Bytes → Except WireError Bytes} (hm : Writes m x)
    (hi : i = w.length) (hw : i ≤ buff.length)
    (hk : ∀ d, x = .ok d → i + d.length ≤ buff.length →
      WritesAt buff (w ++ d) (k (i + d.length)) (y d)) :
    WritesAt buff w (putAt i m >>= k) (do let d ← x; let d' ← y d; pure (d ++ d')) := by
  change (putAt i m (overlay w buff) >>= fun p => k p.1 p.2) = _
  rw [hm.at hi hw]
  subst hi
  cases x with
  | error e => rfl
  | ok d =>
    have hlen : (w ++ d).length = w.length + d.length := List.length_append
    change (Outcome.of (laid (.ok (w ++ d)) buff) >>= _) = _
    by_cases hd : w.length + d.length ≤ buff.length
    · rw [laid_of_le (by omega), hlen]
      change k (w.length + d.length) (overlay (w ++ d) buff) = _
      rw [hk d rfl hd]
      cases hy : y d with
      | error e => simp [hy, bind, Except.bind, laid]
      | ok d' => simp [hy, bind, Except.bind, pure, Except.pure]
    · rw [laid_of_lt (by omega)]
      change Outcome.error WireError.invalidLength = _
      cases hy : y d with
      | error e => simp [hy, bind, Except.bind, laid]
      | ok d' =>
        have htotal : buff.length < (w ++ (d ++ d')).length := by
          simp only [List.length_append]
          omega
        simp [hy, bind, Except.bind, pure, Except.pure, laid_of_lt htotal]

theorem Writes.at_bind_ok {m : Writer Nat} {k : Nat → Writer Nat} {d' : Bytes}
    (hm : Writes m (.ok d)) (hi : i = w.length) (hw : i ≤ buff.length)
    (hk : i + d.length ≤ buff.length → WritesAt buff (w ++ d) (k (i + d.length)) (.ok d')) :
    WritesAt buff w (putAt i m >>= k) (.ok (d ++ d')) := by
  refine hm.at_bind (y := fun _ => .ok d') hi hw fun d hd => ?_
  cases hd
  exact hk

/-! ### The fields there are -/

theorem writes_byte (x : UInt8) : Writes (putByte x) (.ok [x]) := by
  intro buff
  cases buff with
  | nil => rfl
  | cons y buff => rfl

theorem writes_fixed (hn : d.length = n) : Writes (putFixed n d) (.ok d) :=
  .of_room hn fun _ h => .bind (.copy rfl hn.symm (by omega)) (.pure n)

theorem writes_prefixed (d : Bytes) : Writes (putPrefixed d) (Bytes.lengthPrefixed d) := by
  intro buff
  change (if 255 < d.length || buff.length < d.length + 1 then refuse .invalidLength >>= _ else _ :
    Writer Nat) buff = _
  rw [Bytes.lengthPrefixed]
  by_cases hd : d.length ≤ 255
  · rw [if_pos hd]
    by_cases h : buff.length < d.length + 1
    · rw [if_pos (by simp [h]), laid_of_lt (by simpa using h)]
      rfl
    · rw [if_neg (by simp; omega), laid_of_le (by simp; omega)]
      exact Lays.bind (w := []) (.put rfl (by omega)) <|
        .bind (.copy rfl rfl (by omega)) (.pure _)
  · rw [if_neg hd, if_pos (by simp; omega)]
    rfl

theorem writes_prefixed_of_le (h : d.length ≤ 255) :
    Writes (putPrefixed d) (.ok (AppInfo.field d)) := by
  have hwrites := writes_prefixed d
  rwa [Bytes.lengthPrefixed_eq_ok.2 ⟨h, rfl⟩] at hwrites

end HardwareSigner.Buffer
