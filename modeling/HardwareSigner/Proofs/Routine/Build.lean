import HardwareSigner.Proofs.Client.Completion
import HardwareSigner.Proofs.Transaction.Commitment
import HardwareSigner.Proofs.Transaction.Serial
import HardwareSigner.Routine.Exercises
import Mathlib.Data.List.Nodup

/-! The transaction that an exercise builds to have it signed. Up to the most inputs that a
transaction may have, every result fits in its word and the amounts come out even: the inputs hold
what the outputs pay and the fee. Each input is made before their number is judged, and one more
input takes the byte in its identifier past 255: there an exercise that minds its words stops,
instead of being told that there are too many inputs. -/

namespace HardwareSigner

namespace Arithmetic

variable {τ α : Type} {a : Arithmetic}

/-- A result that fits is taken as it is, and so is any other where nobody minds. -/
theorem result_eq {outgrown : Bool} (h : a = .wrapping ∨ outgrown = false) (x : α) :
    (a.result outgrown x : Routine τ α) = pure x := by
  refine if_neg ?_
  rintro ⟨rfl, houtgrown⟩
  simp [houtgrown] at h

theorem add_eq {x y : UInt8} (h : a = .wrapping ∨ x.toNat + y.toNat < 256) :
    (a.add x y : Routine τ UInt8) = pure (x + y) := by
  apply result_eq
  simpa [BitVec.uaddOverflow] using h

theorem mul_eq {x y : UInt64} (h : a = .wrapping ∨ x.toNat * y.toNat < 2 ^ 64) :
    (a.mul x y : Routine τ UInt64) = pure (x * y) := by
  apply result_eq
  simpa [BitVec.umulOverflow] using h

theorem sub_eq {x y : UInt64} (h : a = .wrapping ∨ y ≤ x) :
    (a.sub x y : Routine τ UInt64) = pure (x - y) := by
  apply result_eq
  simpa [BitVec.usubOverflow, UInt64.le_iff_toNat_le] using h

theorem add_outgrown {x y : UInt8} (h : 256 ≤ x.toNat + y.toNat) :
    (checked.add x y : Routine τ UInt8) = throw .broken := by
  refine if_pos ⟨rfl, ?_⟩
  simpa [BitVec.uaddOverflow] using h

end Arithmetic

/-- The device tells the keys of paths, one after the other. -/
inductive Handle.Learns {τ : Type} [Transport τ] (h : Handle) :
    τ → List DerivationPath → List PublicKey → τ → Prop
  | nil (t : τ) : Learns h t [] [] t
  | cons {t t' t'' : τ} {path : DerivationPath} {paths : List DerivationPath} {k : PublicKey}
      {keys : List PublicKey} (hk : (h.publicKey path).run.run t = (some (.ok k), t'))
      (hrest : Learns h t' paths keys t'') : Learns h t (path :: paths) (k :: keys) t''

/-- A simulated device tells the keys of all paths that it shows keys for. -/
theorem Handle.exists_learns {σ : Type} [KeySource σ] (h : Handle) (d : SimDevice σ)
    {paths : List DerivationPath} (hpaths : ∀ p ∈ paths, Device.checkPath p = .ok ())
    (hkeys : ∀ source, KeySource.Asked d.engine.keys source → ∀ p ∈ paths,
      ∃ k, (KeySource.derive source p.elements).1 = some k)
    (hformat : ∀ k, (d.engine.system.publicKey k).bytes.head? = some PublicKey.uncompressed) :
    ∃ keys d', h.Learns d paths keys d' := by
  induction paths generalizing d with
  | nil => exact ⟨[], d, .nil d⟩
  | cons path paths ih =>
    obtain ⟨hpath, hpaths⟩ := List.forall_mem_cons.1 hpaths
    obtain ⟨k, hk⟩ := hkeys _ (.refl _) path List.mem_cons_self
    obtain ⟨told, hrun, htells⟩ := h.run_publicKey d hpath hk (hformat k.secret)
    obtain ⟨keys, d', hrest⟩ := ih told hpaths
      (fun source hasked p hp => hkeys source (htells.engine.keys.trans hasked) p
        (List.mem_cons_of_mem _ hp))
      (htells.engine.system ▸ hformat)
    exact ⟨_, d', .cons hrun hrest⟩

namespace Routine

variable {τ α β : Type} {t t' : τ} {a : Arithmetic} {n i : Nat}

theorem throw_bind (e : RoutineError) (f : α → Routine τ β) :
    ((throw e : Routine τ α) >>= f) = throw e := rfl

theorem run_bind {p : Routine τ α} {x : α} (hp : p.run.run t = some (.ok x, t'))
    (f : α → Routine τ β) : (p >>= f).run.run t = (f x).run.run t' := by
  rw [ExceptT.run_bind, StateT.run_bind, hp]
  rfl

/-! ### Inputs -/

def inputsOf (n : Nat) : List TransactionInput :=
  (List.range n).map fun i => inputOf (UInt8.ofNat i + 1) i

theorem inputsOf_succ (n : Nat) :
    inputsOf (n + 1) = inputsOf n ++ [inputOf (UInt8.ofNat n + 1) n] := by
  simp [inputsOf, List.range_succ]

@[simp] theorem length_inputsOf (n : Nat) : (inputsOf n).length = n := by simp [inputsOf]

theorem generatedInput_eq (h : a = .wrapping ∨ i < 255) :
    (generatedInput a i : Routine τ TransactionInput) = pure (inputOf (UInt8.ofNat i + 1) i) := by
  have hfits : a = .wrapping ∨ (UInt8.ofNat i).toNat + (1 : UInt8).toNat < 256 := by
    refine h.imp_right fun hlt => ?_
    rw [UInt8.toNat_ofNat', UInt8.toNat_one]
    omega
  rw [generatedInput, idByte, Arithmetic.add_eq hfits, pure_bind]

/-- The byte of the first input that a transaction has no place for. -/
theorem generatedInput_outgrown :
    (generatedInput .checked 255 : Routine τ TransactionInput) = throw .broken := by
  rw [generatedInput, idByte, Arithmetic.add_outgrown (by decide), throw_bind]

theorem mapM_generatedInput (h : a = .wrapping ∨ n ≤ 255) :
    ((List.range n).mapM (generatedInput a) : Routine τ (List TransactionInput)) =
      pure (inputsOf n) := by
  induction n with
  | zero => rfl
  | succ n ih =>
    -- the list grows at its end, where the byte is highest
    have hprev := ih (h.imp_right fun hle => by omega)
    have hlast : (generatedInput a n : Routine τ TransactionInput) = _ :=
      generatedInput_eq (h.imp_right fun hle => by omega)
    rw [List.range_succ, List.mapM_append, hprev, List.mapM_cons, hlast, inputsOf_succ]
    simp

/-- No list of inputs that goes on after that one is ever made. -/
theorem mapM_generatedInput_outgrown (h : 256 ≤ n) :
    ((List.range n).mapM (generatedInput .checked) : Routine τ (List TransactionInput)) =
      throw .broken := by
  induction n, h using Nat.le_induction with
  | base =>
    -- 255 inputs are made before the one that stops it
    rw [List.range_succ, List.mapM_append, mapM_generatedInput (.inr le_rfl), pure_bind,
      List.mapM_cons, generatedInput_outgrown, throw_bind, throw_bind]
  | succ n _ ih => rw [List.range_succ, List.mapM_append, ih, throw_bind]

theorem nodup_outpoints (h : n ≤ 2 ^ 32) :
    ((inputsOf n).map fun i => (i.previousTxId, i.inputIndex)).Nodup := by
  rw [inputsOf, List.map_map]
  refine List.Nodup.map_on ?_ List.nodup_range
  intro i hi j hj heq
  have hindex : UInt32.ofNat i = UInt32.ofNat j := congrArg Prod.snd heq
  rw [List.mem_range] at hi hj
  have := congrArg UInt32.toNat hindex
  rw [UInt32.toNat_ofNat', UInt32.toNat_ofNat'] at this
  omega

/-! ### Amounts -/

/-- Value of so many inputs less the fee, as far as it fits in a word. -/
def total (n : Nat) : UInt64 := inputValue * UInt64.ofNat n - fee

def amounts (n : Nat) : Option UInt32 → List UInt64
  | none => [total n]
  | some _ => [sendValue, total n - sendValue]

@[simp] theorem toNat_inputValue : inputValue.toNat = 1000000 := rfl

@[simp] theorem toNat_fee : fee.toNat = 10000 := rfl

@[simp] theorem toNat_sendValue : sendValue.toNat = 500000 := rfl

theorem value_mul_lt (h : n ≤ 255) : inputValue.toNat * (UInt64.ofNat n).toNat < 2 ^ 64 := by
  rw [toNat_inputValue, UInt64.toNat_ofNat']
  omega

theorem toNat_value_mul (h : n ≤ 255) :
    (inputValue * UInt64.ofNat n).toNat = inputValue.toNat * n := by
  rw [UInt64.toNat_mul, Nat.mod_eq_of_lt (value_mul_lt h), UInt64.toNat_ofNat',
    Nat.mod_eq_of_lt (by omega)]

theorem fee_le (hn : 0 < n) (h : n ≤ 255) : fee ≤ inputValue * UInt64.ofNat n := by
  rw [UInt64.le_iff_toNat_le, toNat_value_mul h, toNat_fee, toNat_inputValue]
  omega

theorem toNat_total (hn : 0 < n) (h : n ≤ 255) :
    (total n).toNat + fee.toNat = inputValue.toNat * n := by
  have hle := fee_le hn h
  rw [total, UInt64.toNat_sub_of_le _ _ hle, ← toNat_value_mul h]
  exact Nat.sub_add_cancel (UInt64.le_iff_toNat_le.1 hle)

theorem sendValue_le (hn : 0 < n) (h : n ≤ 255) : sendValue ≤ total n := by
  have htotal := toNat_total hn h
  rw [toNat_fee, toNat_inputValue] at htotal
  rw [UInt64.le_iff_toNat_le, toNat_sendValue]
  omega

theorem spendable_eq (h : a = .wrapping ∨ 0 < n ∧ n ≤ 255) :
    (spendable a n : Routine τ UInt64) = pure (total n) := by
  have hmul := h.imp_right fun ⟨_, hle⟩ => value_mul_lt hle
  have hsub := h.imp_right fun ⟨hn, hle⟩ => fee_le hn hle
  rw [spendable, Arithmetic.mul_eq hmul, pure_bind, Arithmetic.sub_eq hsub, total]

theorem sum_amounts (hn : 0 < n) (h : n ≤ 255) (change : Option UInt32) :
    ((amounts n change).map UInt64.toNat).sum = (total n).toNat := by
  cases change with
  | none => simp [amounts]
  | some index =>
    have hle := sendValue_le hn h
    have hsum : sendValue.toNat + (total n - sendValue).toNat = (total n).toNat := by
      rw [UInt64.toNat_sub_of_le _ _ hle]
      exact Nat.add_sub_of_le (UInt64.le_iff_toNat_le.1 hle)
    rw [amounts, List.map_cons, List.map_singleton, List.sum_cons, List.sum_singleton, hsum]

theorem sum_values (n : Nat) :
    ((inputsOf n).map fun i => i.value.toNat).sum = inputValue.toNat * n := by
  induction n with
  | zero => rfl
  | succ n ih =>
    rw [inputsOf_succ, List.map_append, List.sum_append, ih, List.map_singleton,
      List.sum_singleton, Nat.mul_succ, inputOf]

/-! ### Outputs -/

def outputTo (value : UInt64) (k : PublicKey) : TransactionOutput :=
  ⟨value, spendScript k.compressed .schnorr, (length_spendScript_le _ _).trans (by decide)⟩

theorem ofParts_spendScript (value : UInt64) (k : PublicKey) :
    TransactionOutput.ofParts value (spendScript k.compressed .schnorr) = .ok (outputTo value k) :=
  dif_pos _

/-- Paths of the keys that a transaction pays, in the order of its outputs. Change goes back to an
address of the account that is spent from. -/
def paidPaths : Option UInt32 → List DerivationPath
  | none => [destinationPath]
  | some index => [destinationPath, .address defaultAccount changeAddress index]

theorem changePath_eq (index : UInt32) :
    changePath index = .address defaultAccount changeAddress index := by
  simp [changePath, DerivationPath.address, defaultAccount]

/-- One output for each key, and together they pay all that can be spent. -/
structure Pays (n : Nat) (change : Option UInt32) (keys : List PublicKey)
    (outputs : List TransactionOutput) : Prop where
  scripts : outputs.map (·.script) = keys.map fun k => spendScript k.compressed .schnorr
  values : outputs.map (·.value) = amounts n change

variable [Transport τ] {h : Handle} {change : Option UInt32} {keys : List PublicKey}

theorem run_exchange {p : Exchange α} {x : α} (hp : p.run.run t = (some (.ok x), t')) :
    (exchange p).run.run t = some (.ok x, t') := by
  simp only [exchange, ExceptT.run_mk, StateT.run, hp]

theorem run_payTo {path : DerivationPath} {k : PublicKey}
    (hk : (h.publicKey path).run.run t = (some (.ok k), t')) :
    (payTo h path).run.run t = some (.ok (spendScript k.compressed .schnorr), t') :=
  run_bind (run_exchange hk) _

theorem run_payments (hlearns : h.Learns t (paidPaths change) keys t') :
    ∃ outputs, Pays n change keys outputs ∧ ∀ a, (a = .wrapping ∨ sendValue ≤ total n) →
      (payments h a (total n) change).run.run t = some (.ok outputs, t') := by
  cases change with
  | none =>
    cases hlearns with
    | @cons _ _ _ _ _ k _ hk hrest =>
      cases hrest
      refine ⟨[outputTo (total n) k], ⟨rfl, rfl⟩, fun a _ => ?_⟩
      rw [payments, run_bind (run_payTo hk), ofParts_spendScript]
      rfl
  | some index =>
    cases hlearns with
    | @cons _ _ _ _ _ k _ hk hrest =>
      cases hrest with
      | @cons _ _ _ _ _ back _ hback hrest =>
        cases hrest
        rw [← changePath_eq] at hback
        refine ⟨[outputTo sendValue k, outputTo (total n - sendValue) back], ⟨rfl, rfl⟩,
          fun a hfits => ?_⟩
        rw [payments, run_bind (run_payTo hk), run_bind (run_payTo hback), ofParts_spendScript]
        simp only [lift, Arithmetic.sub_eq hfits, pure_bind, ofParts_spendScript]
        rfl

/-- Where no result outgrows its word, it is left to the bounds of a transaction what comes of the
inputs and outputs. -/
theorem run_build (hn : 0 < n) (hfits : a = .wrapping ∨ n ≤ 255) {outputs : List TransactionOutput}
    (hpay : (payments h a (total n) change).run.run t = some (.ok outputs, t')) :
    (build h n change a).run.run t =
      some (((Transaction.ofParts 0 (inputsOf n) outputs).map
        (·.withChange (change.map (⟨changeAddress, ·⟩)))).mapError .client, t') := by
  rw [build, if_neg (by omega)]
  simp only [mapM_generatedInput hfits, spendable_eq (hfits.imp_right (⟨hn, ·⟩)), pure_bind]
  rw [run_bind hpay]
  cases Transaction.ofParts 0 (inputsOf n) outputs <;> rfl

/-- The byte in an identifier is outgrown before the device is asked for anything. -/
theorem run_build_outgrown (h : Handle) (change : Option UInt32) (t : τ) (hn : 255 < n) :
    (build h n change .checked).run.run t = some (.error .broken, t) := by
  rw [build, if_neg (by omega), mapM_generatedInput_outgrown hn]
  rfl

theorem Pays.ofParts {outputs : List TransactionOutput} (hpays : Pays n change keys outputs)
    (hn : 0 < n) (hle : n ≤ 255) :
    ∃ tx, Transaction.ofParts 0 (inputsOf n) outputs = .ok tx ∧ tx.inputs = inputsOf n ∧
      tx.outputs = outputs := by
  have hcount : outputs.length = (amounts n change).length := by
    rw [← hpays.values, List.length_map]
  have hins : inputsOf n ≠ [] := List.ne_nil_of_length_pos (by simpa using hn)
  have houts : outputs ≠ [] ∧ outputs.length ≤ 255 := by
    rw [← List.length_pos_iff, hcount]
    cases change <;> simp [amounts]
  let tx : Transaction :=
    ⟨0, inputsOf n, outputs, none, by decide, by simpa using hle, houts.2, hins, houts.1⟩
  exact ⟨tx, Transaction.ofParts_eq_ok.2 ⟨rfl, rfl, rfl, rfl⟩, rfl, rfl⟩

theorem ofParts_of_many (outputs : List TransactionOutput) (hn : 255 < n) :
    Transaction.ofParts 0 (inputsOf n) outputs = .error (.tooManyInputs n) := by
  rw [Transaction.ofParts, dif_pos (by decide), dif_neg (by simpa using hn), length_inputsOf]

theorem Pays.balanced {tx : Transaction} (hpays : Pays n change keys tx.outputs)
    (hinputs : tx.inputs = inputsOf n) (hn : 0 < n) (hle : n ≤ 255) :
    tx.inputTotal = tx.outputTotal + fee.toNat := by
  have hin : tx.inputTotal = ((inputsOf n).map fun i => i.value.toNat).sum := by
    rw [Transaction.inputTotal, hinputs, List.sum_eq_foldl, List.foldl_map]
  have hout : tx.outputTotal = ((tx.outputs.map (·.value)).map UInt64.toNat).sum := by
    rw [Transaction.outputTotal, List.sum_eq_foldl, List.foldl_map, List.foldl_map]
  rw [hin, sum_values, hout, hpays.values, sum_amounts hn hle, toNat_total hn hle]

/-- Up to 255 inputs, the most that a transaction may have, every result fits in its word. The
exercise asks for the keys that it pays and ends with so many inputs, each of which spends another
output; they hold what is paid and the fee, and with change the second output pays the key of the
address that is declared for it. With more inputs the byte in an identifier is outgrown: the
exercise stops before it asks for anything. Only where words are not minded is it told that there
are too many inputs. -/
theorem balanced_up_to_limit (hlearns : h.Learns t (paidPaths change) keys t') (hn : 0 < n) :
    (n ≤ 255 → ∃ tx, (∀ a, (build h n change a).run.run t = some (.ok tx, t')) ∧
      tx.inputs.length = n ∧
      (tx.inputs.map fun i => (i.previousTxId, i.inputIndex)).Nodup ∧
      tx.inputTotal = tx.outputTotal + fee.toNat ∧
      tx.outputs.map (·.script) = keys.map (fun k => spendScript k.compressed .schnorr) ∧
      tx.change = change.map (⟨changeAddress, ·⟩)) ∧
    (255 < n → (build h n change .checked).run.run t = some (.error .broken, t) ∧
      (build h n change .wrapping).run.run t = some (.error (.client (.tooManyInputs n)), t')) := by
  obtain ⟨outputs, hpays, hpay⟩ := run_payments (n := n) hlearns
  constructor
  · intro hle
    obtain ⟨tx, htx, hinputs, rfl⟩ := hpays.ofParts hn hle
    refine ⟨tx.withChange (change.map (⟨changeAddress, ·⟩)), fun a => ?_, ?_, ?_, ?_, ?_, rfl⟩
    · rw [run_build hn (.inr hle) (hpay a (.inr (sendValue_le hn hle))), htx]
      rfl
    · exact (congrArg List.length hinputs).trans (length_inputsOf n)
    · change (tx.inputs.map _).Nodup
      rw [hinputs]
      exact nodup_outpoints (by omega)
    · exact hpays.balanced hinputs hn hle
    · exact hpays.scripts
  · intro hmany
    refine ⟨run_build_outgrown h change t hmany, ?_⟩
    rw [run_build hn (.inl rfl) (hpay .wrapping (.inl rfl)), ofParts_of_many outputs hmany]
    rfl

end Routine

namespace BuildExample

open Routine

def handle : Handle := ⟨Secp256k1.system, {}⟩

theorem learns (change : Option UInt32) :
    ∃ keys told, handle.Learns CompletionExample.device (paidPaths change) keys told := by
  refine handle.exists_learns _ ?_ (fun source _ p _ => ⟨source.key, rfl⟩) fun _ => rfl
  cases change with
  | none => simp [paidPaths, destinationPath, Device.checkPath_address, receiveAddress]
  | some index =>
    simp [paidPaths, destinationPath, Device.checkPath_address, receiveAddress, changeAddress]

end BuildExample

open BuildExample Routine in
/-- The largest transaction is built, and one that is too large is refused where words are not
minded. -/
theorem balanced_up_to_limit_most : 0 < 255 ∧ 0 < 256 ∧
    ∃ keys told, handle.Learns CompletionExample.device (paidPaths (some 7)) keys told ∧
      (∃ tx, (∀ a, (build handle 255 (some 7) a).run.run CompletionExample.device =
          some (.ok tx, told)) ∧
        tx.inputs.length = 255 ∧
        (tx.inputs.map fun i => (i.previousTxId, i.inputIndex)).Nodup ∧
        tx.inputTotal = tx.outputTotal + fee.toNat ∧
        tx.outputs.map (·.script) = keys.map (fun k => spendScript k.compressed .schnorr) ∧
        tx.change = some ⟨changeAddress, 7⟩) ∧
      (build handle 256 (some 7) .wrapping).run.run CompletionExample.device =
        some (.error (.client (.tooManyInputs 256)), told) := by
  obtain ⟨keys, told, hlearns⟩ := learns (some 7)
  exact ⟨by decide, by decide, keys, told, hlearns,
    (balanced_up_to_limit hlearns (by decide)).1 le_rfl,
    ((balanced_up_to_limit hlearns (by decide)).2 (by decide)).2⟩

open BuildExample Routine in
/-- The device would tell every key, yet nobody is told that there are too many inputs: 255 and one
more is no byte. -/
theorem too_many_inputs_untold :
    (∃ keys told, handle.Learns CompletionExample.device (paidPaths none) keys told) ∧
    (255 : UInt8).toBitVec.uaddOverflow (1 : UInt8).toBitVec = true ∧
    (build handle 256 none).run.run CompletionExample.device =
      some (.error .broken, CompletionExample.device) :=
  ⟨learns none, by decide, run_build_outgrown _ _ _ (by decide)⟩

end HardwareSigner
