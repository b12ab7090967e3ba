import AccessRules.Json.Printer
import AccessRules.Json.Reader
import AccessRules.Schema

/-! JSON text of relations: an object of their fields, or an array of them in order that may end
early. -/
namespace AccessRules

open Json.Reader (token peek text nullableText mismatched)

/-- A kind by its name, or an object whose one key is the name and whose value is null. -/
def RelationKind.reader : Json.Reader RelationKind := do
  let named := fun (name : String) => match ofName? name with
    | some kind => (pure kind : Json.Reader RelationKind)
    | none => throw .mismatch
  match ← token with
  | .text name => named name
  | .openObject => do
    let kind ← named (← text)
    Json.Reader.expect Json.Reader.colon
    Json.Reader.null
    Json.Reader.expect Json.Reader.closeObject
    pure kind
  | _ => throw .malformed

namespace Relation

def kindField : String := "kind"
def targetField : String := "target_type"
def keyFieldName : String := "foreign_key"

private structure Partial where
  kind : Option RelationKind
  target : Option (Option String)
  key : Option (Option String)

private def Partial.finish (parts : Partial) : Json.Reader Relation :=
  match parts.kind with
  | some kind => pure ⟨kind, parts.target.join.map EntityType.mk, parts.key.join⟩
  | none => throw .mismatch

/-- Reads one field; unknown and repeated ones are refused as soon as their key is read. -/
private def readField (parts : Partial) : Json.Reader Partial := do
  let colon := Json.Reader.expect Json.Reader.colon
  match ← token with
  | .text name =>
    if name = kindField ∧ parts.kind.isNone then do
      colon
      pure { parts with kind := some (← RelationKind.reader) }
    else if name = targetField ∧ parts.target.isNone then do
      colon
      pure { parts with target := some (← nullableText) }
    else if name = keyFieldName ∧ parts.key.isNone then do
      colon
      pure { parts with key := some (← nullableText) }
    else throw .mismatch
  | _ => throw .malformed

private def readFields : Nat → Bool → Partial → Json.Reader Relation
  | 0, _, _ => throw .mismatch
  | fuel + 1, first, parts => do
    match ← peek with
    | some .closeObject => do
      let relation ← parts.finish
      let _ ← token
      pure relation
    | _ => do
      if !first then Json.Reader.expect Json.Reader.comma
      readFields fuel false (← readField parts)

private def nextItem (item : Json.Reader (Option String)) : Json.Reader (Option String) := do
  match ← peek with
  | some .closeArray => pure none
  | _ => do
    Json.Reader.expect Json.Reader.comma
    item

def reader : Json.Reader Relation := do
  match ← token with
  | .openObject => readFields 4 true ⟨none, none, none⟩
  | .openArray => do
    match ← peek with
    | some .closeArray => throw .mismatch
    | _ => pure ()
    let kind ← RelationKind.reader
    let target ← nextItem nullableText
    let key ← nextItem nullableText
    Json.Reader.expect Json.Reader.closeArray
    pure ⟨kind, target.map EntityType.mk, key⟩
  | t => throw (mismatched t)

def ofJson (s : String) : Except Json.Fault Relation := Json.Reader.run reader s

private def nullable : Option String → Json
  | some s => .text s
  | none => .null

def toJson (r : Relation) : String :=
  (Json.object [(kindField, .text r.kind.name), (targetField, nullable (r.target.map (·.name))),
    (keyFieldName, nullable r.key)]).compact

end Relation
end AccessRules
