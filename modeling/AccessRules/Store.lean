import AccessRules.Filter.Error
import AccessRules.Schema
import AccessRules.Selector

/-! Stores of documents by entity type, as those who ask see them. -/
namespace AccessRules

inductive StoreFault where
  /-- The database could not answer. -/
  | database (text : String)
  | filter (fault : FilterError)
  deriving DecidableEq, Repr

def StoreFault.message : StoreFault → String
  | database text => "database error: " ++ text
  | filter fault => fault.message

/-- What a store answers, always the same to the same question. -/
structure Store where
  /-- The identifiers of the selected documents, each once. -/
  identifiers : EntityType → Selector → Except StoreFault (List Value)
  documents : EntityType → Selector → Except StoreFault (List Document)

end AccessRules
