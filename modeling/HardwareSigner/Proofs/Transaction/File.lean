import HardwareSigner.Transaction.File
import HardwareSigner.Proofs.Json.Reader
import HardwareSigner.Proofs.Transaction.Serial

/-! A transaction file is read back from the text that is written for it, whatever it holds: the
bounds of the wire are asked only when it is made a transaction. -/

namespace HardwareSigner.TxFile

open Json

/-! ### Texts -/

theorem readInput_text (i : TxInput) : Reads readInput (inputText i) i := by
  refine reads_record (s := ⟨i.value, i.previousTxId, i.addressType, i.addressIndex, i.inputIndex⟩)
    ?_ rfl
  apply Steps.cons (reads_member rfl (by decide) rfl (reads_uint64 i.value))
  apply Steps.cons (reads_member rfl (by decide) rfl (reads_hexBlock i.previousTxId))
  apply Steps.cons (reads_member rfl (by decide) rfl (reads_uint8 i.addressType))
  apply Steps.cons (reads_member rfl (by decide) rfl (reads_uint32 i.addressIndex))
  apply Steps.cons (reads_member rfl (by decide) rfl (reads_uint32 i.inputIndex))
  exact .nil

theorem readOutput_text (o : TxOutput) : Reads readOutput (outputText o) o := by
  refine reads_record (s := ⟨o.value, o.script⟩) ?_ rfl
  apply Steps.cons (reads_member rfl (by decide) rfl (reads_uint64 o.value))
  apply Steps.cons (reads_member rfl (by decide) rfl (reads_hexString o.script))
  exact .nil

theorem readChange_text (c : ChangeAddress) : Reads readChange (changeText c) c := by
  refine reads_record (s := ⟨c.addressType, c.addressIndex⟩) ?_ rfl
  apply Steps.cons (reads_member rfl (by decide) rfl (reads_uint8 c.addressType))
  apply Steps.cons (reads_member rfl (by decide) rfl (reads_uint32 c.addressIndex))
  exact .nil

theorem members_opens {avoid : Char} (h : avoid ≠ '\x7b') (ms : List (String × List Char)) :
    Opens avoid (members ms) :=
  ⟨'\x7b', _, rfl, rfl, h.symm⟩

theorem readChange?_text (c : Option ChangeAddress) :
    Reads (nullable readChange) ((c.map changeText).getD null) c := by
  cases c with
  | none => exact reads_nullable_none
  | some c => exact reads_nullable_some (readChange_text c) (members_opens (by decide) _)

theorem parse_text (f : TxFile) : parse f.text = some f := by
  have hinputs := reads_list f.inputs readInput_text fun _ => members_opens (by decide) _
  have houtputs := reads_list f.outputs readOutput_text fun _ => members_opens (by decide) _
  refine whole_of_reads (reads_record (s := ⟨f.version, f.inputs, f.outputs, some f.change⟩) ?_ rfl)
  apply Steps.cons (reads_member rfl (by decide) rfl (reads_uint16 f.version))
  apply Steps.cons (reads_member rfl (by decide) rfl hinputs)
  apply Steps.cons (reads_member rfl (by decide) rfl houtputs)
  apply Steps.cons (reads_member rfl (by decide) rfl (readChange?_text f.change))
  exact .nil

/-! ### Transactions -/

/-- The scripts that are too long for an output. -/
def scriptFaults (outputs : List TxOutput) : List ClientError :=
  (outputs.filter (255 < ·.script.length)).map fun o => .scriptTooLong o.script.length

/-- The bounds of the wire that a version and numbers of inputs and outputs break. -/
def boundFaults (version : UInt16) (inputs outputs : Nat) : List ClientError :=
  (if maxVersion < version.toNat then [.invalidVersion version] else []) ++
  (if 255 < inputs then [.tooManyInputs inputs] else []) ++
  (if 255 < outputs then [.tooManyOutputs outputs] else []) ++
  (if inputs = 0 then [.noInputs] else []) ++ (if outputs = 0 then [.noOutputs] else [])

/-- What keeps a file from being a transaction, in the order in which it is met. -/
def faults (f : TxFile) : List ClientError :=
  scriptFaults f.outputs ++ boundFaults f.version f.inputs.length f.outputs.length

/-- The transaction holds what the file holds, and no keys. -/
structure Holds (f : TxFile) (tx : Transaction) : Prop where
  version : tx.version = f.version
  inputs : tx.inputs.map TransactionInput.toRecord = f.inputs
  keyless : tx.Keyless
  outputs : tx.outputs.map TransactionOutput.toRecord = f.outputs
  change : tx.change = f.change

theorem toTransaction_eq_ok {f : TxFile} {tx : Transaction} :
    f.toTransaction = .ok tx ↔ f.Holds tx := by
  simp only [toTransaction, bind_eq_ok, TransactionOutput.mapM_ofRecord_eq_ok,
    Transaction.ofParts_eq_ok]
  constructor
  · intro h
    obtain ⟨outputs, houtputs, tx', ⟨hversion, hinputs, hsame, -⟩, heq⟩ := h
    obtain rfl : tx'.withChange f.change = tx := Except.ok.inj heq
    refine ⟨hversion, ?_, ?_, hsame ▸ houtputs, rfl⟩
    · change tx'.inputs.map _ = _
      rw [hinputs, List.map_map]
      exact List.map_id _
    · intro i hi
      change i ∈ tx'.inputs at hi
      rw [hinputs] at hi
      obtain ⟨r, -, rfl⟩ := List.mem_map.1 hi
      rfl
  · intro h
    obtain ⟨hversion, hinputs, hkeyless, houtputs, hchange⟩ := h
    refine ⟨tx.outputs, houtputs, tx.withChange none, ⟨hversion, ?_, rfl, rfl⟩, ?_⟩
    · exact (hinputs ▸ hkeyless.map_ofRecord).symm
    · rw [← hchange]
      rfl

theorem mapM_ofRecord_of_fault {outputs : List TxOutput} {e : ClientError}
    {es : List ClientError} (h : scriptFaults outputs = e :: es) :
    outputs.mapM TransactionOutput.ofRecord = .error e := by
  induction outputs with
  | nil => cases h
  | cons o outputs ih =>
    rw [List.mapM_cons, TransactionOutput.ofRecord, TransactionOutput.ofParts]
    by_cases hlong : 255 < o.script.length
    · rw [dif_neg (Nat.not_le.2 hlong)]
      simp only [scriptFaults, List.filter_cons, hlong, decide_true, if_true, List.map_cons,
        List.cons.injEq] at h
      obtain ⟨rfl, -⟩ := h
      rfl
    · have htail : scriptFaults outputs = e :: es := by
        simpa [scriptFaults, List.filter_cons, hlong] using h
      rw [dif_pos (Nat.not_lt.1 hlong), ih htail]
      rfl

theorem exists_outputs {outputs : List TxOutput} (h : scriptFaults outputs = []) :
    ∃ os : List TransactionOutput, os.map TransactionOutput.toRecord = outputs := by
  apply TransactionOutput.exists_map_toRecord
  intro o ho
  simp only [scriptFaults, List.map_eq_nil_iff, List.filter_eq_nil_iff, decide_eq_true_eq] at h
  exact Nat.not_lt.1 (h o ho)

theorem first_fault {broken : Prop} [Decidable broken] {x e : ClientError}
    {xs es : List ClientError} (h : (if broken then [x] else []) ++ xs = e :: es) :
    broken ∧ x = e ∨ ¬ broken ∧ xs = e :: es := by
  by_cases hbroken : broken
  · rw [if_pos hbroken] at h
    exact .inl ⟨hbroken, (List.cons.inj h).1⟩
  · rw [if_neg hbroken] at h
    exact .inr ⟨hbroken, h⟩

theorem ofParts_of_fault {version : UInt16} {inputs : List TransactionInput}
    {outputs : List TransactionOutput} {e : ClientError} {es : List ClientError}
    (h : boundFaults version inputs.length outputs.length = e :: es) :
    Transaction.ofParts version inputs outputs = .error e := by
  rw [boundFaults, ← List.append_nil (if outputs.length = 0 then _ else _)] at h
  simp only [List.append_assoc] at h
  unfold Transaction.ofParts
  rcases first_fault h with ⟨hversion, rfl⟩ | ⟨hversion, h⟩
  · exact dif_neg (Nat.not_le.2 hversion)
  rw [dif_pos (Nat.not_lt.1 hversion)]
  rcases first_fault h with ⟨hinputs, rfl⟩ | ⟨hinputs, h⟩
  · exact dif_neg (Nat.not_le.2 hinputs)
  rw [dif_pos (Nat.not_lt.1 hinputs)]
  rcases first_fault h with ⟨houtputs, rfl⟩ | ⟨houtputs, h⟩
  · exact dif_neg (Nat.not_le.2 houtputs)
  rw [dif_pos (Nat.not_lt.1 houtputs)]
  rcases first_fault h with ⟨hnone, rfl⟩ | ⟨hsome, h⟩
  · exact dif_neg (not_not_intro (List.length_eq_zero_iff.1 hnone))
  rw [dif_pos (mt List.length_eq_zero_iff.2 hsome)]
  rcases first_fault h with ⟨hnone, rfl⟩ | ⟨-, h⟩
  · exact dif_neg (not_not_intro (List.length_eq_zero_iff.1 hnone))
  cases h

theorem exists_holds {f : TxFile} (h : f.faults = []) : ∃ tx, f.Holds tx := by
  obtain ⟨hscripts, hbounds⟩ := List.append_eq_nil_iff.1 h
  obtain ⟨outputs, houtputs⟩ := exists_outputs hscripts
  simp only [boundFaults, List.append_eq_nil_iff, ite_eq_right_iff, List.cons_ne_nil, imp_false,
    Nat.not_lt, ← houtputs, List.length_map] at hbounds
  obtain ⟨⟨⟨⟨hversion, hin⟩, hout⟩, hin'⟩, hout'⟩ := hbounds
  have hinputs : (f.inputs.map TransactionInput.ofRecord).length = f.inputs.length :=
    List.length_map _
  refine ⟨⟨f.version, f.inputs.map TransactionInput.ofRecord, outputs, f.change, hversion,
    hinputs ▸ hin, hout, ?_, ?_⟩, rfl, ?_, ?_, houtputs, rfl⟩
  · rw [← List.length_pos_iff, hinputs]
    exact Nat.pos_of_ne_zero hin'
  · exact List.length_pos_iff.1 (Nat.pos_of_ne_zero hout')
  · rw [List.map_map]
    exact List.map_id _
  · intro i hi
    obtain ⟨r, -, rfl⟩ := List.mem_map.1 hi
    rfl

theorem toTransaction_of_fault {f : TxFile} {e : ClientError} {es : List ClientError}
    (h : f.faults = e :: es) : f.toTransaction = .error e := by
  rw [faults] at h
  cases hscripts : scriptFaults f.outputs with
  | cons e' es' =>
    rw [hscripts, List.cons_append] at h
    obtain ⟨rfl, -⟩ := List.cons.inj h
    rw [toTransaction, mapM_ofRecord_of_fault hscripts]
    rfl
  | nil =>
    rw [hscripts, List.nil_append] at h
    obtain ⟨outputs, houtputs⟩ := exists_outputs hscripts
    have hlength : outputs.length = f.outputs.length := by rw [← houtputs, List.length_map]
    have hbounds : boundFaults f.version (f.inputs.map TransactionInput.ofRecord).length
        outputs.length = e :: es := by rwa [List.length_map, hlength]
    rw [toTransaction, TransactionOutput.mapM_ofRecord_eq_ok.2 houtputs]
    change (Transaction.ofParts _ _ _ >>= _) = _
    rw [ofParts_of_fault hbounds]
    rfl

theorem toTransaction_eq_error {f : TxFile} {e : ClientError} :
    f.toTransaction = .error e ↔ f.faults.head? = some e := by
  cases hfaults : f.faults with
  | nil =>
    obtain ⟨tx, htx⟩ := exists_holds hfaults
    rw [toTransaction_eq_ok.2 htx]
    simp
  | cons e' es =>
    rw [toTransaction_of_fault hfaults]
    simp

/-! ### Files that are written again -/

/-- The text that is written for what a text is read as. -/
def reprint (t : List Char) : Option (List Char) := (parse t).map text

def conversion (t : List Char) : Option (Except ClientError Transaction) :=
  (parse t).map toTransaction

/-- A file is read back from its text. So a text that is read may be written again: the new text
is read as the same file, is written as itself and makes the same transaction, which is the one
that holds what the file holds, or the first fault of the file. -/
theorem reprint_faithful :
    (∀ f : TxFile, parse f.text = some f) ∧
    (∀ (t : List Char) (f : TxFile), parse t = some f → ∃ u, reprint t = some u ∧
      parse u = some f ∧ reprint u = some u ∧ conversion u = conversion t ∧
      conversion t = some f.toTransaction) ∧
    ∀ f : TxFile, (∀ e, f.toTransaction = .error e ↔ f.faults.head? = some e) ∧
      ∀ tx, f.toTransaction = .ok tx ↔ f.Holds tx := by
  refine ⟨parse_text, ?_, fun f => ⟨fun _ => toTransaction_eq_error, fun _ => toTransaction_eq_ok⟩⟩
  intro t f h
  have hagain := parse_text f
  refine ⟨f.text, ?_, hagain, ?_, ?_, ?_⟩
  · rw [reprint, h, Option.map_some]
  · rw [reprint, hagain, Option.map_some]
  · rw [conversion, conversion, h, hagain]
  · rw [conversion, h, Option.map_some]

end HardwareSigner.TxFile
