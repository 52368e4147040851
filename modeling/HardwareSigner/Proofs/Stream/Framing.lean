import Mathlib.Data.List.Induction
import HardwareSigner.Stream.Connection
import HardwareSigner.Proofs.Device.Reply
import HardwareSigner.Proofs.Wire.Word

/-! What is read off a stream depends on its bytes and not on its segments. Behind its length a
frame is taken off whole, and so is an answer; of less than that nothing is taken. -/

namespace HardwareSigner.Stream

variable {σ : Type} [KeySource σ] {d : SimDevice σ} {l : StreamLink} {n : Nat} {b tail : Bytes}
  {apdu raw : Bytes} {segments : Incoming}

theorem readExact_of_append (h : segments.flatten = b ++ tail) :
    ∃ rest, readExact b.length segments = some (b, rest) ∧ rest.flatten = tail := by
  induction segments generalizing b with
  | nil =>
    obtain ⟨rfl, rfl⟩ := List.append_eq_nil_iff.1 h.symm
    exact ⟨[], rfl, rfl⟩
  | cons segment segments ih =>
    rw [List.flatten_cons] at h
    by_cases hlen : b.length ≤ segment.length
    · obtain ⟨more, rfl⟩ : ∃ more, segment = b ++ more := by
        rcases List.append_eq_append_iff.1 h with ⟨more, rfl, -⟩ | ⟨more, hmore, -⟩
        · rw [List.length_append] at hlen
          obtain rfl := List.length_eq_zero_iff.1 (show more.length = 0 by omega)
          exact ⟨[], by simp⟩
        · exact ⟨more, hmore⟩
      rw [List.append_assoc] at h
      refine ⟨more :: segments, ?_, List.append_cancel_left h⟩
      rw [readExact, if_pos hlen, List.take_left, List.drop_left]
    · obtain ⟨more, rfl, hmore⟩ :
          ∃ more, b = segment ++ more ∧ segments.flatten = more ++ tail := by
        rcases List.append_eq_append_iff.1 h with hshort | ⟨more, rfl, -⟩
        · exact hshort
        · rw [List.length_append] at hlen
          omega
      obtain ⟨rest, hread, hrest⟩ := ih hmore
      refine ⟨rest, ?_, hrest⟩
      rw [readExact, if_neg hlen, List.length_append, Nat.add_sub_cancel_left, hread]
      rfl

theorem readExact_of_short (h : segments.flatten.length < n) : readExact n segments = none := by
  induction segments generalizing n with
  | nil => exact if_neg (Nat.ne_of_gt h)
  | cons segment segments ih =>
    rw [List.flatten_cons, List.length_append] at h
    rw [readExact, if_neg (by omega), ih (by omega)]
    rfl

/-- Bytes of which there are some of a longer sequence, but not all. -/
def Part (b whole : Bytes) : Prop := ∃ more, more ≠ [] ∧ b ++ more = whole

theorem part_of_nil {whole : Bytes} (h : whole ≠ []) : Part [] whole := ⟨whole, h, rfl⟩

/-- What begins as a whole goes on behind it, or else is a part of it with more to come. -/
theorem part_or_append {whole later rest : Bytes} (h : b ++ rest = whole ++ later) :
    Part b whole ∧ rest ≠ [] ∨ ∃ tail, b = whole ++ tail ∧ tail ++ rest = later := by
  rcases List.append_eq_append_iff.1 h with ⟨more, rfl, hmore⟩ | ⟨more, rfl, hmore⟩
  · rcases List.eq_nil_or_concat more with rfl | ⟨init, last, rfl⟩
    · exact .inr ⟨[], by simp, by simpa using hmore⟩
    · exact .inl ⟨⟨_, by simp, rfl⟩, by simp [hmore]⟩
  · exact .inr ⟨more, rfl, hmore.symm⟩

/-- Of a header and what it counts, the header is not all there, or else it is and what follows it
is short. -/
theorem Part.cases {header body : Bytes} (h : Part b (header ++ body)) :
    b.length < header.length ∨ ∃ tail, b = header ++ tail ∧ tail.length < body.length := by
  obtain ⟨more, hmore, heq⟩ := h
  rcases part_or_append heq with ⟨⟨missing, hmissing, rfl⟩, -⟩ | ⟨tail, rfl, rfl⟩
  · refine .inl ?_
    have hpos := List.length_pos_iff.2 hmissing
    rw [List.length_append]
    omega
  · refine .inr ⟨tail, rfl, ?_⟩
    have hpos := List.length_pos_iff.2 hmore
    rw [List.length_append]
    omega

theorem toNatBE_lengthBytes (h : n ≤ Frame.maxLength) :
    Bytes.toNatBE (Bytes.ofNatBE lengthBytes n) = n := by
  have hlt : n < 256 ^ 4 := Nat.lt_of_le_of_lt h (by decide)
  rw [Bytes.toNatBE_ofNatBE]
  exact Nat.mod_eq_of_lt hlt

theorem length_request : (request apdu).length = 4 + apdu.length := by
  simp [request, lengthBytes]

theorem length_reply : (reply raw).length = 4 + raw.length := by
  simp [reply, lengthBytes]

theorem readHeader (h : segments.flatten = Bytes.ofNatBE lengthBytes n ++ tail) :
    ∃ rest, readExact lengthBytes segments = some (Bytes.ofNatBE lengthBytes n, rest) ∧
      rest.flatten = tail := by
  have hread := readExact_of_append h
  rwa [Bytes.length_ofNatBE] at hread

/-! ### The device's end -/

/-- A device that decides by itself has its answer fetched at once. -/
theorem receive_submit (hpolicy : d.policy ≠ .manual) (apdu : Bytes) :
    (d.submit apdu).receive = (some (Engine.settle d.policy d.engine apdu).1,
      { d with engine := (Engine.settle d.policy d.engine apdu).2, response := none }) := by
  unfold SimDevice.submit
  rw [Engine.respond_eq_settle hpolicy]
  rfl

theorem serveNext_request (hpolicy : d.policy ≠ .manual) (hlen : apdu.length ≤ Frame.maxLength)
    (h : segments.flatten = request apdu ++ tail) :
    ∃ rest, serveNext d segments = .answered (Engine.settle d.policy d.engine apdu).1
        { d with engine := (Engine.settle d.policy d.engine apdu).2, response := none } rest ∧
      rest.flatten = tail := by
  rw [request, List.append_assoc] at h
  obtain ⟨rest, hheader, hrest⟩ := readHeader h
  obtain ⟨rest', hbody, hrest'⟩ := readExact_of_append hrest
  refine ⟨rest', ?_, hrest'⟩
  simp only [serveNext, hheader, toNatBE_lengthBytes hlen, if_neg (Nat.not_lt.2 hlen), hbody,
    receive_submit hpolicy]

theorem serveNext_part (hlen : apdu.length ≤ Frame.maxLength)
    (h : Part segments.flatten (request apdu)) :
    serveNext d segments = .closed ∧ Connection.oversized segments = false := by
  rcases h.cases with hshort | ⟨tail, htail, hshort⟩
  · rw [Bytes.length_ofNatBE] at hshort
    simp only [serveNext, Connection.oversized, readExact_of_short hshort, and_self]
  · obtain ⟨rest, hheader, hrest⟩ := readHeader htail
    have hbody := readExact_of_short (hrest ▸ hshort)
    simp only [serveNext, Connection.oversized, hheader, toNatBE_lengthBytes hlen,
      if_neg (Nat.not_lt.2 hlen), hbody, decide_eq_false (Nat.not_lt.2 hlen), and_self]

/-! ### The wallet's end -/

theorem receive_reply (hmin : 2 ≤ raw.length) (hmax : raw.length ≤ 262)
    (h : l.incoming.flatten = reply raw ++ tail) :
    ∃ rest, l.receive = (.answer raw, { l with incoming := rest }) ∧ rest.flatten = tail := by
  have hlen : raw.length - statusBytes ≤ Frame.maxLength := Nat.sub_le_sub_right hmax 2
  have hsum : raw.length - statusBytes + statusBytes = raw.length := Nat.sub_add_cancel hmin
  rw [reply, List.append_assoc] at h
  obtain ⟨rest, hheader, hrest⟩ := readHeader h
  obtain ⟨rest', hbody, hrest'⟩ := readExact_of_append hrest
  refine ⟨rest', ?_, hrest'⟩
  simp only [StreamLink.receive, hheader, toNatBE_lengthBytes hlen, if_neg (Nat.not_lt.2 hlen),
    hsum, hbody]

theorem receive_part (hmin : 2 ≤ raw.length) (hmax : raw.length ≤ 262)
    (h : Part l.incoming.flatten (reply raw)) : l.receive.1 = StreamLink.ended := by
  have hlen : raw.length - statusBytes ≤ Frame.maxLength := Nat.sub_le_sub_right hmax 2
  have hsum : raw.length - statusBytes + statusBytes = raw.length := Nat.sub_add_cancel hmin
  rcases h.cases with hshort | ⟨tail, htail, hshort⟩
  · rw [Bytes.length_ofNatBE] at hshort
    simp only [StreamLink.receive, readExact_of_short hshort]
  · obtain ⟨rest, hheader, hrest⟩ := readHeader htail
    have hbody := readExact_of_short (hrest ▸ hshort)
    simp only [StreamLink.receive, hheader, toNatBE_lengthBytes hlen, if_neg (Nat.not_lt.2 hlen),
      hsum, hbody]

end HardwareSigner.Stream
