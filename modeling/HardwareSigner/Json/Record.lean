import HardwareSigner.Json.Skip

/-!
Records with named fields. A record is written by name, in any order and with other members
among its own, or as the list of its fields in their order. Each field is read into a draft of
the record, once at most.
-/

namespace HardwareSigner.Json

structure Field (σ : Type) where
  name : String
  isSet : σ → Bool
  read : σ → TextReader σ

/-- A field that is read by `r` and kept where `value` finds it. -/
def Field.of {σ α : Type} (name : String) (value : σ → Option α) (set : σ → α → σ)
    (r : TextReader α) : Field σ :=
  ⟨name, fun s => (value s).isSome, fun s => set s <$> r⟩

variable {σ : Type}

/-- A member of a record: one of its fields, or another, which is passed over. -/
def member (fields : List (Field σ)) (s : σ) : TextReader σ := do
  let name ← string
  mark ':'
  match fields.find? fun f => f.name.toList = name with
  | none => skipValue *> pure s
  | some f => if f.isSet s then failure else f.read s

/-- The next field in order; there is none after the last. -/
def position : List (Field σ) × σ → TextReader (List (Field σ) × σ)
  | ([], _) => failure
  | (f :: fields, s) => do
    let s ← f.read s
    pure (fields, s)

def record {α : Type} (fields : List (Field σ)) (empty : σ) (complete : σ → Option α) :
    TextReader α := do
  let s ←
    if (← peek) = '[' then (·.2) <$> bracketed '[' ']' position (fields, empty)
    else bracketed '\x7b' '\x7d' (member fields) empty
  complete s

end HardwareSigner.Json
