import AccessRules.KeyMap
import AccessRules.Value

/-! Entity types, the relations between them, and the fields of a fresh entity. -/
namespace AccessRules

structure EntityType where
  name : String
  deriving DecidableEq, Repr, Inhabited

/-- How a related entity is stored: inside its owner, or by itself and referred to by identifier. -/
inductive RelationKind where
  | embedded
  | foreignKey
  deriving DecidableEq, Repr

def RelationKind.name : RelationKind → String
  | embedded => "embedded"
  | foreignKey => "foreign_key"

def RelationKind.ofName? (name : String) : Option RelationKind :=
  [RelationKind.embedded, .foreignKey].find? fun kind => kind.name == name

structure Relation where
  kind : RelationKind
  /-- The type of the related entity; a relation without one cannot be resolved. -/
  target : Option EntityType
  /-- The field that holds the identifier, if it is not named after the relation. -/
  key : Option String
  deriving DecidableEq, Repr

def Relation.keyField (r : Relation) (field : String) : String := r.key.getD (field ++ "_id")

structure Entity where
  relations : KeyMap Relation
  defaults : Document
  deriving Repr

/-- Entity types by name. A type that is not declared has no relations and no defaults. -/
structure Schema where
  entities : KeyMap Entity
  deriving Repr

namespace Schema

def empty : Schema := ⟨[]⟩

def entity? (schema : Schema) (type : EntityType) : Option Entity :=
  schema.entities.lookup type.name

def relations? (schema : Schema) (type : EntityType) : Option (KeyMap Relation) :=
  (schema.entity? type).map Entity.relations

def relation? (schema : Schema) (type : EntityType) (field : String) : Option Relation :=
  (schema.relations? type).bind (·.lookup field)

def blank (schema : Schema) (type : EntityType) : Document :=
  ((schema.entity? type).map Entity.defaults).getD []

private def update (schema : Schema) (type : EntityType) (f : Entity → Entity) : Schema :=
  ⟨KeyMap.alter (fun present => f (present.getD ⟨[], []⟩)) type.name schema.entities⟩

def addRelation (schema : Schema) (type : EntityType) (field : String) (r : Relation) : Schema :=
  schema.update type fun e => { e with relations := KeyMap.insert field r e.relations }

def setDefaults (schema : Schema) (type : EntityType) (defaults : Document) : Schema :=
  schema.update type fun e => { e with defaults }

end Schema
end AccessRules
