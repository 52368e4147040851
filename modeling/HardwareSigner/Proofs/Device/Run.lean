import HardwareSigner.Device.Engine
import Mathlib.Logic.Relation

/-! Runs of a device: what reaches it is a command frame or the operator's decision, one after
the other, in any order. A run is the fold of its steps. -/

namespace HardwareSigner

inductive Event where
  | frame (apdu : Bytes)
  | approval
  | denial

namespace Event

/-- Phase and payload, if the event is a frame of a signing exchange. -/
def exchange? : Event → Option (Phase × Bytes)
  | frame apdu =>
    match Frame.read.decodeAll apdu with
    | .error _ => none
    | .ok f =>
      if f.cla = appClass ∧ Instruction.ofCode? f.ins = some .signTx then
        f.phase?.map fun p => (p, f.data)
      else none
  | approval | denial => none

/-- A request for the next signature that is well formed in both parameters. -/
def fetches : Event → Bool
  | frame apdu =>
    match Frame.read.decodeAll apdu with
    | .error _ => false
    | .ok f =>
      f.cla = appClass && Instruction.ofCode? f.ins = some .signTx &&
        f.phase? = some .nextSignature && f.continuation?.isSome
  | approval | denial => false

end Event

namespace Engine

variable {σ : Type} [KeySource σ]

/-- One event and what the device says to it. A denial is acknowledged without data. -/
def step (e : Engine σ) : Event → Except StatusWord Output × Engine σ
  | .frame apdu => e.update apdu
  | .approval => (e.approve.1.map .data, e.approve.2)
  | .denial => (e.deny.1.map fun _ => .data [], e.deny.2)

def after (e : Engine σ) (evs : List Event) : Engine σ :=
  evs.foldl (fun e ev => (e.step ev).2) e

/-- The events of a run with the answers to them. -/
def trace (e : Engine σ) : List Event → List (Event × Except StatusWord Output)
  | [] => []
  | ev :: evs => (ev, (e.step ev).1) :: (e.step ev).2.trace evs

@[simp] theorem after_nil (e : Engine σ) : e.after [] = e := rfl

@[simp] theorem after_cons (e : Engine σ) (ev : Event) (evs : List Event) :
    e.after (ev :: evs) = (e.step ev).2.after evs := rfl

@[simp] theorem after_append (e : Engine σ) (evs more : List Event) :
    e.after (evs ++ more) = (e.after evs).after more := by
  unfold after
  exact List.foldl_append

end Engine

namespace KeySource

variable {σ : Type} [KeySource σ]

/-- The key that a source gives now for an address of the default account. -/
def addressKey (keys : σ) (addressType : UInt8) (addressIndex : UInt32) : Option DerivedKey :=
  (derive keys (DerivationPath.address defaultAccount addressType addressIndex).elements).1

/-- The second source is what the first one becomes after some questions. -/
def Asked : σ → σ → Prop :=
  Relation.ReflTransGen fun s t => ∃ path, t = (derive s path).2

theorem Asked.refl (s : σ) : Asked s s := Relation.ReflTransGen.refl

theorem Asked.trans {s t u : σ} (h : Asked s t) (h' : Asked t u) : Asked s u :=
  Relation.ReflTransGen.trans h h'

theorem asked_derive (s : σ) (path : List UInt32) : Asked s (derive s path).2 :=
  Relation.ReflTransGen.single ⟨path, rfl⟩

/-- The source has these keys for the addresses of the default account, however often it was asked
before. -/
def Gives (keys : σ) (key : UInt8 → UInt32 → DerivedKey) : Prop :=
  ∀ source, Asked keys source → ∀ addressType : UInt8, addressType ≤ 1 → ∀ index,
    addressKey source addressType index = some (key addressType index)

theorem Gives.asked {s t : σ} {key : UInt8 → UInt32 → DerivedKey} (h : Gives s key)
    (hst : Asked s t) : Gives t key :=
  fun source hasked => h source (hst.trans hasked)

/-- A source that questions leave as it is stays so. -/
theorem Asked.eq_of_constant {s t : σ} (h : Asked s t) (hs : ∀ path, (derive s path).2 = s) :
    t = s := by
  induction h with
  | refl => rfl
  | tail _ h ih =>
    obtain ⟨path, rfl⟩ := h
    rw [ih, hs path]

end KeySource

namespace Engine

variable {σ : Type} [KeySource σ]

/-- The engine has asked its source for keys, and done nothing else. -/
structure Asks (e e' : Engine σ) : Prop where
  system : e'.system = e.system
  config : e'.config = e.config
  activity : e'.activity = e.activity
  keys : KeySource.Asked e.keys e'.keys

theorem Asks.refl (e : Engine σ) : e.Asks e := ⟨rfl, rfl, rfl, .refl _⟩

theorem Asks.trans {e e' e'' : Engine σ} (h : e.Asks e') (h' : e'.Asks e'') : e.Asks e'' :=
  ⟨h'.system.trans h.system, h'.config.trans h.config, h'.activity.trans h.activity,
    h.keys.trans h'.keys⟩

theorem Asks.eq_with_keys {e e' : Engine σ} (h : e.Asks e') : e' = { e with keys := e'.keys } := by
  obtain ⟨system, config, keys, activity⟩ := e'
  obtain ⟨rfl, rfl, rfl, -⟩ := h
  rfl

theorem derive_asks (e : Engine σ) (path : List UInt32) : e.Asks (e.derive path).2 := by
  have hkeys := KeySource.asked_derive e.keys path
  unfold derive
  split <;> rename_i h <;> rw [h] at hkeys <;> exact ⟨rfl, rfl, rfl, hkeys⟩

theorem derive_ok {e : Engine σ} {path : List UInt32} {k : DerivedKey}
    (h : (e.derive path).1 = .ok k) : (KeySource.derive e.keys path).1 = some k := by
  unfold derive at h
  split at h
  · rename_i hd
    obtain rfl : _ = k := Except.ok.inj h
    rw [hd]
  · cases h

theorem derive_of_key {e : Engine σ} {path : List UInt32} {k : DerivedKey}
    (h : (KeySource.derive e.keys path).1 = some k) :
    e.derive path = (.ok k, { e with keys := (KeySource.derive e.keys path).2 }) := by
  unfold derive
  rcases hd : KeySource.derive e.keys path with ⟨_ | k', s⟩ <;> rw [hd] at h <;> cases h
  rfl

theorem publicKey_asks (e : Engine σ) (path : DerivationPath) :
    e.Asks (e.publicKey path).2 := by
  have h := e.derive_asks path.elements
  unfold publicKey
  split <;> rename_i hd <;> rw [hd] at h <;> exact h

theorem changeScript_asks (e : Engine σ) (c : ChangeAddress) :
    e.Asks (e.changeScript c).2 := by
  have h := e.derive_asks
    (DerivationPath.address defaultAccount c.addressType c.addressIndex).elements
  unfold changeScript
  split <;> rename_i hd <;> rw [hd] at h <;> exact h

theorem signHash_asks (e : Engine σ) (path : DerivationPath) (hash : Block 32) :
    e.Asks (e.signHash path hash).2 := by
  have h := e.derive_asks path.elements
  unfold signHash
  split <;> rename_i hd <;> rw [hd] at h <;> exact h

theorem signInput_asks (e : Engine σ) (tx : StagedTx) (index : Nat) (i : TxInput) :
    e.Asks (e.signInput tx index i).2 := by
  have h := e.derive_asks
    (DerivationPath.address defaultAccount i.addressType i.addressIndex).elements
  unfold signInput
  split
  · rename_i hd
    rw [hd] at h
    exact h
  · rename_i hd
    rw [hd] at h
    split <;> exact h

theorem signInputs_asks (e : Engine σ) (tx : StagedTx) (index : Nat) (inputs : List TxInput) :
    e.Asks (e.signInputs tx index inputs).2 := by
  induction inputs generalizing e index with
  | nil => exact .refl e
  | cons i rest ih =>
    have hfirst := e.signInput_asks tx index i
    unfold signInputs
    split
    · rename_i hs
      rw [hs] at hfirst
      exact hfirst
    · rename_i signature e₁ hs
      rw [hs] at hfirst
      have hrest := hfirst.trans (ih e₁ (index + 1))
      split <;> rename_i hs' <;> rw [hs'] at hrest <;> exact hrest

end Engine

end HardwareSigner
