import HardwareSigner.Message
import HardwareSigner.Proofs.Wire.Length

/-! The bytes of a personal message. They are those of its request, so what is left of them or has
something behind it is no message; but a request may carry bytes that are no text, and a text that
is too long for a frame, and these are no message either. -/

namespace HardwareSigner

namespace MessageRequest

theorem measured_read : read.Measured :=
  .bind .byte fun _ => .bind (.map _ <| .map _ <| .take 4) fun _ =>
    .bind (.map _ <| .map _ <| .take 4) fun _ => .bind .lengthPrefixed fun _ => .pure _

theorem encode_eq_ok {r : MessageRequest} {b : Bytes} :
    r.encode = .ok b ↔ r.message.length ≤ 255 ∧ b = r.layout := by
  constructor
  · intro h
    obtain ⟨field, hfield, h⟩ := bind_eq_ok.1 h
    obtain ⟨hlen, rfl⟩ := Bytes.lengthPrefixed_eq_ok.1 hfield
    cases h
    exact ⟨hlen, rfl⟩
  · rintro ⟨hlen, rfl⟩
    exact encode_eq hlen

end MessageRequest

namespace PersonalMessage

variable {b : Bytes} {m : PersonalMessage}

def fromRequest (r : MessageRequest) : Except ClientError PersonalMessage :=
  match Bytes.toText? r.message with
  | none => .error (.wire .invalidEncoding)
  | some text => do
    let m ← ofText text r.addressType r.addressIndex
    pure (m.withAccount r.account)

theorem deserialize_of_read {r : MessageRequest} (h : MessageRequest.read.decodeAll b = .ok r) :
    deserialize b = fromRequest r := by
  rw [deserialize, h]
  rfl

theorem deserialize_of_error {e : WireError} (h : MessageRequest.read.decodeAll b = .error e) :
    deserialize b = .error (.wire e) := by
  rw [deserialize, h]
  rfl

theorem fromRequest_toRecord (m : PersonalMessage) : fromRequest m.toRecord = .ok m := by
  have htext : Bytes.toText? m.toRecord.message = some m.text := Bytes.toText?_eq_some.2 rfl
  rw [fromRequest, htext]
  dsimp only
  rw [ofText, dif_pos m.length_text]
  rfl

/-- A message is made of a request only if it is the one that the request is for. -/
theorem fromRequest_eq_ok {r : MessageRequest} : fromRequest r = .ok m ↔ r = m.toRecord := by
  constructor
  · intro h
    unfold fromRequest at h
    split at h
    · cases h
    · rename_i text htext
      obtain ⟨made, hmade, h⟩ := bind_eq_ok.1 h
      unfold ofText at hmade
      split at hmade
      · cases hmade
        cases h
        obtain ⟨t, index, account, message⟩ := r
        obtain rfl : message = Bytes.ofText text := Bytes.toText?_eq_some.1 htext
        rfl
      · cases hmade
  · rintro rfl
    exact fromRequest_toRecord m

theorem decodeAll_serialize (m : PersonalMessage) :
    MessageRequest.read.decodeAll m.serialize = .ok m.toRecord := by
  have hlen : m.bytes.length ≤ 255 := Nat.le_trans m.length_text (by decide)
  exact MessageRequest.exact_read.decodeAll_eq_ok.2 ⟨hlen, rfl⟩

theorem deserialize_eq_ok : deserialize b = .ok m ↔ b = m.serialize := by
  constructor
  · intro h
    cases hread : MessageRequest.read.decodeAll b with
    | error e =>
      rw [deserialize_of_error hread] at h
      cases h
    | ok r =>
      rw [deserialize_of_read hread] at h
      obtain rfl := fromRequest_eq_ok.1 h
      exact (MessageRequest.exact_read.decodeAll_eq_ok.1 hread).2
  · rintro rfl
    rw [deserialize_of_read m.decodeAll_serialize, fromRequest_toRecord]

/-- A message and its bytes determine each other. Bytes are refused for their length if some are
missing or something follows, for their encoding if the message in them is no text, and for the
length of the text if no frame has room for it. -/
theorem serial_exact :
    (∀ m : PersonalMessage, Record.encode m.toRecord = .ok m.serialize ∧
      deserialize m.serialize = .ok m) ∧
    (∀ (b : Bytes) (m : PersonalMessage), deserialize b = .ok m ↔ b = m.serialize) ∧
    (∀ (m : PersonalMessage) (b : Bytes), b ≠ m.serialize →
      b <+: m.serialize ∨ m.serialize <+: b → deserialize b = .error (.wire .invalidLength)) ∧
    ∀ (r : MessageRequest) (b : Bytes), Record.encode r = .ok b →
      ((∀ text, Bytes.ofText text ≠ r.message) →
        deserialize b = .error (.wire .invalidEncoding)) ∧
      ∀ text, Bytes.ofText text = r.message → maxFramedMessage < r.message.length →
        deserialize b = .error (.messageTooLong r.message.length) := by
  refine ⟨fun m => ⟨m.encode_toRecord, deserialize_eq_ok.2 rfl⟩, fun b m => deserialize_eq_ok,
    fun m b hne hb => ?length, fun r b hr => ?request⟩
  case length =>
    exact deserialize_of_error
      (MessageRequest.measured_read.decodeAll_eq_error m.decodeAll_serialize hne hb)
  case request =>
    have hread := MessageRequest.exact_read.decodeAll_eq_ok.2 (MessageRequest.encode_eq_ok.1 hr)
    rw [deserialize_of_read hread]
    refine ⟨fun hno => ?_, fun text htext hlong => ?_⟩
    · cases hnone : Bytes.toText? r.message with
      | none => rw [fromRequest, hnone]
      | some text => exact absurd (Bytes.toText?_eq_some.1 hnone).symm (hno text)
    · rw [fromRequest, Bytes.toText?_eq_some.2 htext.symm]
      dsimp only
      rw [← htext] at hlong ⊢
      rw [ofText, dif_neg (Nat.not_le.2 hlong)]
      rfl

end PersonalMessage

namespace SerialMessageExample

def message : PersonalMessage := ⟨"né", by decide, 0, 3, defaultAccount⟩

def garbled : MessageRequest := ⟨0, 3, defaultAccount, [0xff]⟩

theorem garbled_no_text (text : String) : Bytes.ofText text ≠ garbled.message := by
  intro h
  have hnone : Bytes.toText? garbled.message = none := by decide +kernel
  rw [Bytes.toText?_eq_some.2 h.symm] at hnone
  cases hnone

/-- One byte more than a frame has room for. -/
def overlong : String := String.ofList (List.replicate 246 'a')

def unframed : MessageRequest := ⟨0, 3, defaultAccount, Bytes.ofText overlong⟩

end SerialMessageExample

open SerialMessageExample PersonalMessage in
/-- Two letters are read from their bytes, and not with the last one missing or another byte behind;
what is no text and what is too long for a frame are requests but no messages. -/
theorem serial_exact_refused :
    deserialize message.serialize = .ok message ∧
    deserialize (message.serialize.take 12) = .error (.wire .invalidLength) ∧
    deserialize (message.serialize ++ [0]) = .error (.wire .invalidLength) ∧
    deserialize garbled.layout = .error (.wire .invalidEncoding) ∧
    deserialize unframed.layout = .error (.messageTooLong 246) := by
  obtain ⟨hread, -, hlength, hrequest⟩ := serial_exact
  have hbytes : unframed.message.length = 246 := by decide +kernel
  have hunframed : Record.encode unframed = .ok unframed.layout :=
    MessageRequest.encode_eq (by rw [hbytes]; decide)
  refine ⟨(hread message).2, hlength message _ (by decide) (.inl (List.take_prefix ..)),
    hlength message _ (by decide) (.inr (List.prefix_append ..)),
    (hrequest garbled _ rfl).1 garbled_no_text, ?_⟩
  have hlong := (hrequest unframed _ hunframed).2 overlong (by rw [unframed])
  rw [hbytes] at hlong
  exact hlong (by decide)

end HardwareSigner
