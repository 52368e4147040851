import HardwareSigner.Record.AppInfo
import HardwareSigner.Proofs.Wire.Records

/-! What a device tells of itself and of a message it signed is read back from the bytes that it is
written as, and from no others. Text is its UTF-8 form. -/

namespace HardwareSigner

namespace Bytes

/-- Bytes are text only as the UTF-8 form of it. -/
theorem toText?_eq_some {b : Bytes} {s : String} : toText? b = some s ↔ b = ofText s := by
  unfold toText? String.fromUTF8?
  split
  · rename_i hvalid
    constructor
    · rintro ⟨⟩
      rfl
    · rintro rfl
      rfl
  · rename_i hinvalid
    refine ⟨nofun, ?_⟩
    rintro rfl
    exact absurd s.isValidUTF8 hinvalid

theorem ofText_inj {s t : String} : ofText s = ofText t ↔ s = t := by
  constructor
  · intro h
    have hs := toText?_eq_some.2 h
    rw [toText?_eq_some.2 rfl] at hs
    exact Option.some.inj hs
  · rintro rfl
    rfl

end Bytes

namespace AppVersion

theorem exact_read : Reader.Exact (Record.read : Reader AppVersion) layout fun _ => True := by
  intro b v rest
  simp only [Record.read, layout, Reader.bind_ok, Reader.byte_eq_ok, Reader.pure_eq_ok, true_and]
  constructor
  · rintro ⟨major, _, rfl, minor, _, rfl, patch, _, rfl, rfl, rfl⟩
    rfl
  · rintro rfl
    exact ⟨v.major, _, rfl, v.minor, _, rfl, v.patch, _, rfl, rfl, rfl⟩

end AppVersion

namespace AppName

/-- A name takes all the bytes there are. -/
theorem read_eq_ok {b rest : Bytes} {n : AppName} :
    (Record.read : Reader AppName) b = .ok (n, rest) ↔ b = n.layout ∧ rest = [] := by
  simp only [Record.read, layout]
  split
  · rename_i name hname
    obtain rfl := Bytes.toText?_eq_some.1 hname
    constructor
    · rintro ⟨⟩
      exact ⟨rfl, rfl⟩
    · rintro ⟨hn, rfl⟩
      obtain rfl := Bytes.ofText_inj.1 hn
      rfl
  · rename_i hname
    refine ⟨nofun, ?_⟩
    rintro ⟨rfl, -⟩
    rw [Bytes.toText?_eq_some.2 rfl] at hname
    cases hname

end AppName

namespace AppInfo

def field (d : Bytes) : Bytes := UInt8.ofNat d.length :: d

def layout (i : AppInfo) : Bytes :=
  format :: (field (Bytes.ofText i.name) ++ field (Bytes.ofText i.version) ++ field i.flags)

/-- Every field can be counted in a byte. -/
def Fits (i : AppInfo) : Prop :=
  (Bytes.ofText i.name).length ≤ 255 ∧ (Bytes.ofText i.version).length ≤ 255 ∧ i.flags.length ≤ 255

theorem readText_eq_ok {b rest : Bytes} {s : String} : readText b = .ok (s, rest) ↔
    (Bytes.ofText s).length ≤ 255 ∧ b = field (Bytes.ofText s) ++ rest := by
  simp only [readText, Reader.bind_ok, Reader.lengthPrefixed_eq_ok]
  constructor
  · rintro ⟨d, mid, ⟨hlen, rfl⟩, h⟩
    cases ht : Bytes.toText? d with
    | none =>
      rw [ht] at h
      cases h
    | some t =>
      obtain rfl := Bytes.toText?_eq_some.1 ht
      rw [ht] at h
      obtain ⟨rfl, rfl⟩ := Reader.pure_eq_ok.1 h
      exact ⟨hlen, rfl⟩
  · rintro ⟨hlen, rfl⟩
    refine ⟨Bytes.ofText s, rest, ⟨hlen, rfl⟩, ?_⟩
    rw [Bytes.toText?_eq_some.2 rfl]
    rfl

theorem exact_read : Reader.Exact read layout Fits := by
  intro b i rest
  simp only [read, layout, Fits, Reader.bind_ok, Reader.byte_eq_ok, Reader.guard_eq_ok,
    readText_eq_ok, Reader.lengthPrefixed_eq_ok, Reader.pure_eq_ok]
  constructor
  · rintro ⟨f, _, rfl, hf, name, _, ⟨hn, rfl⟩, version, _, ⟨hv, rfl⟩, flags, _, ⟨hg, rfl⟩, rfl,
      rfl⟩
    obtain rfl : f = format := by simpa using hf
    exact ⟨⟨hn, hv, hg⟩, by simp [field]⟩
  · rintro ⟨⟨hn, hv, hg⟩, rfl⟩
    refine ⟨format, _, rfl, by simp, i.name, _, ⟨hn, ?_⟩, i.version, _, ⟨hv, rfl⟩, i.flags, rest,
      ⟨hg, rfl⟩, rfl, rfl⟩
    simp [field]

theorem encode_eq {i : AppInfo} (h : i.Fits) : i.encode = .ok i.layout :=
  bind_eq_ok.2 ⟨_, Bytes.lengthPrefixed_eq_ok.2 ⟨h.1, rfl⟩, bind_eq_ok.2
    ⟨_, Bytes.lengthPrefixed_eq_ok.2 ⟨h.2.1, rfl⟩, bind_eq_ok.2
      ⟨_, Bytes.lengthPrefixed_eq_ok.2 ⟨h.2.2, rfl⟩, rfl⟩⟩⟩

end AppInfo

namespace Block

theorem ofBytes?_eq_some {n : Nat} {b : Bytes} {d : Block n} :
    ofBytes? n b = some d ↔ b = d.bytes := by
  unfold ofBytes?
  split
  · constructor
    · rintro ⟨⟩
      rfl
    · rintro rfl
      rfl
  · rename_i hlen
    constructor
    · rintro ⟨⟩
    · rintro rfl
      exact absurd d.length_bytes hlen

end Block

namespace MessageSignature

/-- Nothing follows the hash, which is as long as its length says and no longer. -/
theorem read_eq_ok {b rest : Bytes} {s : MessageSignature} :
    read b = .ok (s, rest) ↔ b = s.layout ∧ rest = [] := by
  simp only [read, Reader.bind_ok, Reader.lengthPrefixed_eq_ok]
  constructor
  · rintro ⟨signature, _, ⟨-, rfl⟩, h⟩
    split at h
    · rename_i hlen
      simp only [Reader.bind_ok, Reader.lengthPrefixed_eq_ok] at h
      obtain ⟨hash, _, ⟨-, rfl⟩, h⟩ := h
      cases hd : Block.ofBytes? 32 hash with
      | none =>
        rw [hd] at h
        cases h
      | some d =>
        obtain rfl := Block.ofBytes?_eq_some.1 hd
        rw [hd] at h
        simp only [Reader.bind_ok, Reader.ending_eq_ok, Reader.pure_eq_ok] at h
        obtain ⟨_, _, ⟨rfl, rfl⟩, rfl, rfl⟩ := h
        exact ⟨by simp [layout, d.length_bytes], rfl⟩
    · cases h
  · rintro ⟨rfl, rfl⟩
    obtain ⟨signature, hlen, hash⟩ := s
    have hle : signature.length ≤ 255 := Nat.le_trans hlen (by decide)
    refine ⟨signature, _, ⟨hle, rfl⟩, ?_⟩
    rw [dif_pos hlen]
    simp only [Reader.bind_ok, Reader.lengthPrefixed_eq_ok]
    refine ⟨hash.bytes, [], ⟨by simp [hash.length_bytes], by simp [hash.length_bytes]⟩, ?_⟩
    rw [Block.ofBytes?_eq_some.2 rfl]
    exact Reader.bind_ok.2 ⟨(), [], Reader.ending_eq_ok.2 ⟨rfl, rfl⟩, rfl⟩

end MessageSignature

end HardwareSigner
