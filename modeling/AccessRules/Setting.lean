import AccessRules.Json
import AccessRules.KeyMap

/-! Settings: what configuration files and environment variables hold, before it is given a type.
Tables are sorted by key. -/
namespace AccessRules

inductive Setting where
  | null
  | bool (b : Bool)
  | integer (n : Int)
  | double (x : Double)
  | text (s : String)
  | list (items : List Setting)
  | table (entries : List (String × Setting))
  deriving Repr

inductive LoadError where
  /-- The text cannot be read, or a number is too large. -/
  | malformed
  | invalidType
  | invalidValue
  | invalidLength
  | unknownVariant
  | unknownField
  | missingField
  deriving DecidableEq, Repr

namespace Setting

instance : Inhabited Setting := ⟨null⟩

mutual

/-- The entries of the second table placed over those of the first; tables under one key are
merged, and otherwise the second stands. -/
def overlay : Setting → Setting → Setting
  | table below, above => match above with
    | table entries => table (overlayEntries below entries)
    | other => other
  | _, above => above

def overlayEntries : List (String × Setting) → List (String × Setting) → List (String × Setting)
  | [], above => above
  | (key, v) :: rest, above =>
    KeyMap.alter (fun present => (present.map v.overlay).getD v) key (overlayEntries rest above)

end

def isWord (n : Int) : Bool := -0x8000000000000000 ≤ n ∧ n ≤ 0xffffffffffffffff

mutual

/-- The JSON value of a setting; numbers that are not finite have none and become null. -/
def toJson : Setting → Except LoadError Json
  | null => .ok .null
  | bool b => .ok (.bool b)
  | integer n => if isWord n then .ok (.integer n) else .error .malformed
  | double x => .ok (if x.isFinite then .double x else .null)
  | text s => .ok (.text s)
  | list items => (toJsonItems items).map .array
  | table entries => (toJsonFields entries).map .object

def toJsonItems : List Setting → Except LoadError (List Json)
  | [] => .ok []
  | v :: vs => do
    let first ← v.toJson
    let rest ← toJsonItems vs
    pure (first :: rest)

def toJsonFields : List (String × Setting) → Except LoadError (List (String × Json))
  | [] => .ok []
  | (key, v) :: rest => do
    let value ← v.toJson
    let others ← toJsonFields rest
    pure ((key, value) :: others)

end

end Setting
end AccessRules
