import AccessRules.MemoryStore
import AccessRules.Json.Reader
import AccessRules.Value.ExtendedJson

/-! Fixtures: the contents of a store as a JSON object with an array of documents for each type. -/
namespace AccessRules

inductive FixturesError where
  | json (fault : Json.Fault)
  | document (fault : ExtendedJson.DocumentFault)
  deriving Repr

namespace Fixtures

open Json.Reader (token parts value fields mismatched maxDepth closeArray)

private def documents : Json.Reader (List Json) := do
  match ← token with
  | .openArray => parts (value (maxDepth - 2)) closeArray
  | t => throw (mismatched t)

/-- Reads the documents by type; of several arrays for a type the last counts. -/
private def reader : Json.Reader (KeyMap (List Json)) := do
  match ← token with
  | .openObject => do pure (KeyMap.ofList (← fields documents))
  | t => throw (mismatched t)

private def insertAll (type : EntityType) (store : MemoryStore) (docs : List Json) :
    Except FixturesError MemoryStore :=
  docs.foldlM (fun store v => do
    let doc ← (ExtendedJson.readDocument v).mapError .document
    pure (store.insert type doc).2) store

/-- The store that a text describes. Types are filled in the order of their names. -/
def parse (supply : Nat → ObjectId) (s : String) : Except FixturesError MemoryStore := do
  let types ← (Json.Reader.run reader s).mapError .json
  types.foldlM (fun store (name, docs) => insertAll ⟨name⟩ store docs) (.empty supply)

end Fixtures
end AccessRules
