import AccessRules.Filter.Match
import AccessRules.Store

/-! A store of documents in memory, in the order they were inserted. Every stored document has
an identifier. -/
namespace AccessRules

structure MemoryStore where
  entries : List (EntityType × Document)
  /-- How many identifiers were made up. -/
  generated : Nat
  /-- The identifiers that are made up, in order. -/
  supply : Nat → ObjectId

namespace MemoryStore

def empty (supply : Nat → ObjectId) : MemoryStore := ⟨[], 0, supply⟩

def ofEntries (entries : List (EntityType × Document)) : MemoryStore :=
  ⟨entries, 0, ObjectId.generated⟩

/-- Stores a document, with a new identifier if it has none, and returns the identifier. -/
def insert (store : MemoryStore) (type : EntityType) (doc : Document) : Value × MemoryStore :=
  match doc.lookup Selector.identifierField with
  | some id => (id, { store with entries := store.entries ++ [(type, doc)] })
  | none =>
    let id := Value.objectId (store.supply store.generated)
    let stored := Document.insert Selector.identifierField id doc
    (id, { store with
      entries := store.entries ++ [(type, stored)]
      generated := store.generated + 1 })

def documents (store : MemoryStore) (type : EntityType) : List Document :=
  (store.entries.filter fun entry => entry.1 = type).map (·.2)

def size (store : MemoryStore) (type : EntityType) : Nat := (store.documents type).length

def distinct (values : List Value) : List Value :=
  values.foldl (fun kept v => if kept.any (·.identical v) then kept else kept ++ [v]) []

variable [Pattern.Engine]

/-- The documents that a filter accepts, in order; the first that it cannot be evaluated on ends
the search. -/
def accepted (filter : Document) : List Document → Except FilterError (List Document)
  | [] => pure []
  | doc :: docs => do
    let here ← Filter.holds filter doc
    let rest ← accepted filter docs
    pure (if here then doc :: rest else rest)

def select (store : MemoryStore) (type : EntityType) (selector : Selector) :
    Except FilterError (List Document) :=
  accepted selector.document (store.documents type)

def identifiers (store : MemoryStore) (type : EntityType) (selector : Selector) :
    Except FilterError (List Value) := do
  let docs ← store.select type selector
  pure (distinct (docs.filterMap (·.lookup Selector.identifierField)))

def toStore (store : MemoryStore) : Store where
  identifiers type selector := (store.identifiers type selector).mapError .filter
  documents type selector := (store.select type selector).mapError .filter

instance : Coe MemoryStore Store := ⟨toStore⟩

end MemoryStore
end AccessRules
