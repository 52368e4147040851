import HardwareSigner.Device.Request
import HardwareSigner.Proofs.Wire.Records

/-! A device reads a message request by places: a kind of address in the first byte, two numbers
behind it, a length in the tenth byte, and the message from there on. The record of the request is
read from its front. They are the same bytes, and what the device asks for besides is an address of
a hardened account and a message that is there and no longer than it shows. -/

namespace HardwareSigner.Device

variable {b : Bytes} {i : Nat}

theorem byteAt_eq_some {x : UInt8} : b[i]? = some x ↔ b.drop i = x :: b.drop (i + 1) := by
  constructor
  · intro h
    obtain ⟨hlt, rfl⟩ := List.getElem?_eq_some_iff.1 h
    exact List.drop_eq_getElem_cons hlt
  · intro h
    rw [← List.head?_drop, h]
    rfl

theorem uint32At?_eq_some {v : UInt32} :
    uint32At? b i = some v ↔ b.drop i = Bytes.ofUInt32BE v ++ b.drop (i + 4) := by
  unfold uint32At?
  split
  · rename_i hroom
    have hlen : ((b.drop i).take 4).length = 4 := by
      rw [List.length_take, List.length_drop]
      omega
    have hsplit := List.take_append_drop 4 (b.drop i)
    rw [List.drop_drop] at hsplit
    constructor
    · rintro ⟨⟩
      rw [Bytes.ofUInt32BE_ofNat hlen, hsplit]
    · intro h
      rw [h, List.take_left' (Bytes.length_ofUInt32BE v), Bytes.ofNat_ofUInt32BE]
  · rename_i hroom
    refine ⟨nofun, fun h => ?_⟩
    have hlen := congrArg List.length h
    rw [List.length_append, Bytes.length_ofUInt32BE, List.length_drop, List.length_drop] at hlen
    omega

theorem fields_iff {r : MessageRequest} :
    (r.message.length ≤ 255 ∧ b = r.layout) ↔
      b[0]? = some r.addressType ∧ uint32At? b 1 = some r.addressIndex ∧
      uint32At? b 5 = some r.account ∧ b[9]? = some (UInt8.ofNat r.message.length) ∧
      r.message.length ≤ 255 ∧ b.drop 10 = r.message := by
  simp only [byteAt_eq_some, uint32At?_eq_some]
  constructor
  · rintro ⟨hlen, rfl⟩
    have hone : r.layout.drop 1 = Bytes.ofUInt32BE r.addressIndex ++ (Bytes.ofUInt32BE r.account ++
        UInt8.ofNat r.message.length :: r.message) := List.append_assoc ..
    have hfive : r.layout.drop 5 = Bytes.ofUInt32BE r.account ++
        UInt8.ofNat r.message.length :: r.message := by
      rw [← List.drop_drop (i := 4), hone, List.drop_left' (Bytes.length_ofUInt32BE _)]
    have hnine : r.layout.drop 9 = UInt8.ofNat r.message.length :: r.message := by
      rw [← List.drop_drop (i := 4) (j := 5), hfive, List.drop_left' (Bytes.length_ofUInt32BE _)]
    have hten : r.layout.drop 10 = r.message := by
      rw [← List.drop_drop (i := 1) (j := 9), hnine]
      rfl
    exact ⟨rfl, hone.trans (congrArg _ hfive.symm), hfive.trans (congrArg _ hnine.symm),
      hnine.trans (congrArg _ hten.symm), hlen, hten⟩
  · rintro ⟨hkind, hindex, haccount, hlength, hlen, hmessage⟩
    refine ⟨hlen, ?_⟩
    rw [← b.drop_zero, hkind, hindex, haccount, hlength, hmessage, ← List.append_assoc]
    rfl

theorem parseMessage_of_fields {t n : UInt8} {index account : UInt32} (ht : b[0]? = some t)
    (hindex : uint32At? b 1 = some index) (haccount : uint32At? b 5 = some account)
    (hn : b[9]? = some n) (limit : Nat) :
    parseMessage b limit =
      if t ≤ changeAddress ∧ hardened ≤ account then
        if n.toNat = 0 then .error .messageTooShort
        else if limit < n.toNat then .error .messageTooLong
        else if b.length < 10 + n.toNat then .error .messageParsingFail
        else if b.length ≠ 10 + n.toNat then .error .messageUnexpected
        else .ok ⟨⟨[purpose, coinType, account, t.toUInt32, index], by simp⟩,
          (b.drop 10).take n.toNat⟩
      else .error .messageAddressTypeFail := by
  unfold parseMessage
  rw [ht]
  dsimp -zeta only
  by_cases hkind : t ≤ changeAddress
  · rw [if_pos hkind, pure_bind, hindex]
    dsimp -zeta only
    rw [pure_bind, haccount]
    dsimp -zeta only
    by_cases hhard : hardened ≤ account
    · rw [if_pos hhard, pure_bind, hn, if_pos ⟨hkind, hhard⟩]
      dsimp -zeta only
      rw [pure_bind]
      dsimp -zeta only
      by_cases hzero : n.toNat = 0
      · rw [if_pos hzero, if_pos hzero]
        rfl
      rw [if_neg hzero, if_neg hzero]
      by_cases hlimit : limit < n.toNat
      · rw [if_pos hlimit, if_pos hlimit]
        rfl
      rw [if_neg hlimit, if_neg hlimit]
      by_cases hmissing : b.length < 10 + n.toNat
      · rw [if_pos hmissing, if_pos hmissing]
        rfl
      rw [if_neg hmissing, if_neg hmissing]
      by_cases hlen : b.length ≠ 10 + n.toNat
      · rw [if_pos hlen, if_pos hlen]
        rfl
      rw [if_neg hlen, if_neg hlen]
      rfl
    · rw [if_neg hhard, if_neg fun h => hhard h.2]
      rfl
  · rw [if_neg hkind, if_neg fun h => hkind h.1]
    rfl

theorem parseMessage_short (h : b.length < 10) (limit : Nat) :
    ∃ s, parseMessage b limit = .error s := by
  have hn : b[9]? = none := List.getElem?_eq_none (Nat.le_of_lt_succ h)
  unfold parseMessage
  rw [hn]
  cases b[0]? with
  | none => exact ⟨_, rfl⟩
  | some t =>
    dsimp -zeta only
    by_cases hkind : t ≤ changeAddress
    · rw [if_pos hkind, pure_bind]
      cases uint32At? b 1 with
      | none => exact ⟨_, rfl⟩
      | some index =>
        dsimp -zeta only
        rw [pure_bind]
        cases uint32At? b 5 with
        | none => exact ⟨_, rfl⟩
        | some account =>
          dsimp -zeta only
          by_cases hhard : hardened ≤ account
          · rw [if_pos hhard]
            exact ⟨_, rfl⟩
          · rw [if_neg hhard]
            exact ⟨_, rfl⟩
    · rw [if_neg hkind]
      exact ⟨_, rfl⟩

theorem uint32At?_of_le (h : i + 4 ≤ b.length) : ∃ v, uint32At? b i = some v :=
  ⟨_, if_pos h⟩

/-- A device takes the bytes of a request for a message that it shows, and reads the message and the
path of its address off it. -/
theorem parseMessage_eq_ok {limit : Nat} {m : MessageToSign} :
    parseMessage b limit = .ok m ↔ ∃ r : MessageRequest,
      (r.message.length ≤ 255 ∧ b = r.layout) ∧ r.addressType ≤ changeAddress ∧
      hardened ≤ r.account ∧ 1 ≤ r.message.length ∧ r.message.length ≤ limit ∧
      m.message = r.message ∧
      m.path.elements = [purpose, coinType, r.account, r.addressType.toUInt32, r.addressIndex] := by
  constructor
  · intro h
    by_cases hshort : b.length < 10
    · obtain ⟨s, hs⟩ := parseMessage_short hshort limit
      rw [hs] at h
      cases h
    have hten := Nat.not_lt.1 hshort
    have ht := List.getElem?_eq_getElem (show 0 < b.length by omega)
    have hn := List.getElem?_eq_getElem (show 9 < b.length by omega)
    obtain ⟨index, hindex⟩ := uint32At?_of_le (b := b) (i := 1) (by omega)
    obtain ⟨account, haccount⟩ := uint32At?_of_le (b := b) (i := 5) (by omega)
    rw [parseMessage_of_fields ht hindex haccount hn] at h
    split_ifs at h with hchecks hzero hlimit hmissing hlen
    obtain ⟨hkind, hhard⟩ := hchecks
    have hlen := not_not.1 hlen
    have hmessage : (b.drop 10).length = (b[9]).toNat := by
      rw [List.length_drop]
      omega
    have hle : (b.drop 10).length ≤ 255 := hmessage ▸ Nat.le_of_lt_succ (b[9]).toNat_lt
    rw [← UInt8.ofNat_toNat (x := b[9]), ← hmessage] at hn
    cases h
    refine ⟨⟨b[0], index, account, b.drop 10⟩,
      fields_iff.2 ⟨ht, hindex, haccount, hn, hle, rfl⟩, hkind, hhard, ?_, ?_, ?_, rfl⟩
    · exact hmessage ▸ Nat.pos_of_ne_zero hzero
    · exact hmessage ▸ Nat.not_lt.1 hlimit
    · exact List.take_of_length_le (Nat.le_of_eq hmessage)
  · rintro ⟨r, hlayout, hkind, hhard, hne, hlimit, hmessage, hpath⟩
    have hlen := hlayout.1
    obtain ⟨ht, hindex, haccount, hn, -, hdrop⟩ := fields_iff.1 hlayout
    have hbyte : (UInt8.ofNat r.message.length).toNat = r.message.length :=
      UInt8.toNat_ofNat_of_lt' (Nat.lt_succ_of_le hlen)
    have htotal : b.length = 10 + r.message.length := by
      have hdropped := congrArg List.length hdrop
      rw [List.length_drop] at hdropped
      omega
    rw [parseMessage_of_fields ht hindex haccount hn, if_pos ⟨hkind, hhard⟩, hbyte,
      if_neg (by omega), if_neg (by omega), if_neg (by omega), if_neg (by omega), hdrop,
      List.take_length]
    obtain ⟨⟨elements, hdepth⟩, message⟩ := m
    obtain rfl : message = r.message := hmessage
    obtain rfl : elements = _ := hpath
    rfl

/-- The request that a device takes is the one that is read from all the bytes. -/
theorem parseMessage_reads {limit : Nat} {m : MessageToSign} (h : parseMessage b limit = .ok m) :
    ∃ r : MessageRequest, MessageRequest.read.decodeAll b = .ok r ∧
      m.path.elements = [purpose, coinType, r.account, r.addressType.toUInt32, r.addressIndex] ∧
      m.message = r.message := by
  obtain ⟨r, hlayout, -, -, -, -, hmessage, hpath⟩ := parseMessage_eq_ok.1 h
  exact ⟨r, MessageRequest.exact_read.decodeAll_eq_ok.2 hlayout, hpath, hmessage⟩

theorem hardened_le_iff {account : UInt32} : hardened ≤ account ↔ 2 ^ 31 ≤ account.toNat :=
  UInt32.le_iff_toNat_le

/-- A device takes the bytes of a message request, and no others. It asks besides for an address of
a hardened account and for a message that is there and no longer than the limit; what it takes is
the message, and the path of the address. -/
theorem parseMessage_exact (b : Bytes) (limit : Nat) (m : MessageToSign) :
    parseMessage b limit = .ok m ↔ ∃ r : MessageRequest, Record.decode b = .ok (r, b.length) ∧
      r.addressType ≤ 1 ∧ 2 ^ 31 ≤ r.account.toNat ∧ 1 ≤ r.message.length ∧
      r.message.length ≤ limit ∧ m.message = r.message ∧
      m.path.elements = [hardened ||| 44, hardened ||| 111111, r.account, r.addressType.toUInt32,
        r.addressIndex] := by
  have hdecode : ∀ r : MessageRequest,
      (Record.decode b = .ok (r, b.length) ↔ r.message.length ≤ 255 ∧ b = r.layout) :=
    fun r => MessageRequest.exact_read.decode_eq_ok
  simp only [hdecode, ← hardened_le_iff]
  exact parseMessage_eq_ok

end HardwareSigner.Device
