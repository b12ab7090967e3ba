import AccessRules.Setting

/-! Typed values from settings. The fields of a record are a table, or a list in their order that
may end early; of several errors the first in the order of a table's keys counts. -/
namespace AccessRules

abbrev Load := Except LoadError

namespace Setting
variable {α σ : Type}

def toText : Setting → Load String
  | text s => pure s
  | _ => throw .invalidType

/-- Null stands for nothing. -/
def optional (read : Setting → Load α) : Setting → Load (Option α)
  | null => pure none
  | v => some <$> read v

def toNat64 : Setting → Load UInt64
  | integer n =>
    if ¬ isWord n then throw .invalidType
    else if n < 0 then throw .invalidValue
    else pure (UInt64.ofNat n.toNat)
  | _ => throw .invalidType

def toList (read : Setting → Load α) : Setting → Load (List α)
  | list items => items.mapM read
  | _ => throw .invalidType

def toTable (read : Setting → Load α) : Setting → Load (KeyMap α)
  | table entries => entries.mapM fun (key, v) => do pure (key, ← read v)
  | _ => throw .invalidType

/-- One of several names. A table stands for its first key, whose value has to be null. -/
def toChoice (ofName? : String → Option α) : Setting → Load α
  | text name => (ofName? name).elim (throw .unknownVariant) pure
  | table ((name, v) :: _) =>
    match ofName? name, v with
    | none, _ => throw .unknownVariant
    | some choice, null => pure choice
    | some _, _ => throw .invalidType
  | _ => throw .invalidType

abbrev Fields (σ : Type) := List (String × (σ → Setting → Load σ))

/-- Reads the fields that are there, and returns with them the error of lacking one. -/
def toRecord (fields : Fields σ) (initial : σ) : Setting → Load (σ × LoadError)
  | table entries => do
    let result ← entries.foldlM (fun parts (key, v) =>
      match fields.lookup key with
      | some read => read parts v
      | none => throw .unknownField) initial
    pure (result, .missingField)
  | list items => do
    let result ← (fields.zip items).foldlM (fun parts (field, v) => field.2 parts v) initial
    pure (result, .invalidLength)
  | _ => throw .invalidType

end Setting
end AccessRules
