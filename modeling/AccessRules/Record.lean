import AccessRules.Permission
import AccessRules.Scope

/-! Records: entities with fixed fields of fixed types. Fields of a document that the record does
not have are passed over. -/
namespace AccessRules

inductive FieldType where
  | text
  | int32
  | nat64
  deriving DecidableEq, Repr

inductive FieldValue where
  | text (s : String)
  | int32 (n : Int32)
  | nat64 (n : UInt64)
  deriving DecidableEq, Repr

/-- Natural numbers are stored as signed ones and have to fit there. -/
def FieldValue.toValue? : FieldValue → Option Value
  | text s => some (.text s)
  | int32 n => some (.int32 n)
  | nat64 n => if n.toNat < 1 <<< 63 then some (.int64 (Int64.ofNat n.toNat)) else none

private def integer? : Value → Option Int
  | .atom (.int32 n) => some n.toInt
  | .atom (.int64 n) => some n.toInt
  | _ => none

/-- Integers are read from either width; text also from plain bytes that encode it. -/
def FieldType.read? : FieldType → Value → Option FieldValue
  | text, .atom (.text s) => some (.text s)
  | text, .atom (.binary 0 bytes) => (String.fromUTF8? ⟨bytes.toArray⟩).map .text
  | text, _ => none
  | int32, value =>
    ((integer? value).filter fun n => -0x80000000 ≤ n ∧ n ≤ 0x7fffffff).map fun n =>
      .int32 (Int32.ofInt n)
  | nat64, value =>
    ((integer? value).filter fun n => 0 ≤ n).map fun n => .nat64 (UInt64.ofNat n.toNat)

abbrev Shape := List (String × FieldType)

abbrev Record := List (String × FieldValue)

def Record.toDocument? (record : Record) : Option Document :=
  record.mapM fun (key, field) => field.toValue?.map (key, ·)

def Shape.read? (shape : Shape) (doc : Document) : Option Record :=
  shape.mapM fun (key, type) => do
    let value ← doc.lookup key
    let field ← type.read? value
    pure (key, field)

/-- The records that rules allow; a document that does not fit is an error of its own. -/
def allowedRecords (schema : Schema) (store : Store) (type : EntityType) (shape : Shape)
    (rules : List Rule) : Run (List (Except AccessError Record)) := do
  let docs ← allowedDocuments schema store type rules
  pure (docs.map fun doc => (shape.read? doc).elim (.error .mismatch) .ok)

def permitsRecord [Pattern.Engine] (schema : Schema) (store : Store) (type : EntityType)
    (rules : List Rule) (record : Record) : Run Bool :=
  match record.toDocument? with
  | some doc => permits schema store type rules doc
  | none => Run.fail .unrepresentable

end AccessRules
