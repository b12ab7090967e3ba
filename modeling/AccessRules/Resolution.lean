import AccessRules.Clause
import AccessRules.Condition.Outline
import AccessRules.Query

/-! Resolution of conditions that reach through relations. An embedded relation becomes a clause on
elements; a foreign key becomes membership in the identifiers of the related entities that satisfy
what is asked of them. -/
namespace AccessRules

inductive Head where
  /-- A plain field; its conditions are literal at any depth. -/
  | plain
  | related (relation : Relation) (target : EntityType)
  | dangling (owner : EntityType)
  deriving DecidableEq, Repr

/-- Relations are looked up only where the type of the owner is known. -/
def Schema.head (schema : Schema) (owner : Option EntityType) (field : String) : Head :=
  match owner with
  | none => .plain
  | some type =>
    match schema.relation? type field with
    | none => .plain
    | some relation =>
      match relation.target with
      | some target => .related relation target
      | none => .dangling type

/-- The clause for what lies below a field. A plain field with nothing below it has to equal the
empty document. -/
def headClause (schema : Schema) (store : Store) (owner : Option EntityType) (field : String)
    (nothingBelow : Bool) (below : Option EntityType → Run (List Clause)) : Run Clause :=
  match schema.head owner field with
  | .plain =>
    if nothingBelow then pure (.field field (.nested []))
    else do pure (.path field (← below none))
  | .dangling owner => Run.fail (.missingTarget owner field)
  | .related relation target => do
    let inside ← below (some target)
    match relation.kind with
    | .embedded => pure (.embedded field target inside)
    | .foreignKey => do
      let ids ← Run.identifiers store target (Clause.selector inside)
      pure (.foreignKey (relation.keyField field) ids)

mutual

def Outline.resolve (schema : Schema) (store : Store) (owner : Option EntityType) :
    Outline → Run (List Clause)
  | .mk direct heads => do
    let below ← Outline.resolveHeads schema store owner heads
    pure (direct.map (fun entry => .field entry.1 entry.2) ++ below)

def Outline.resolveHeads (schema : Schema) (store : Store) (owner : Option EntityType) :
    List (String × Outline) → Run (List Clause)
  | [] => pure []
  | (field, inside) :: rest => do
    let clause ← headClause schema store owner field inside.isEmpty fun type =>
      inside.resolve schema store type
    let clauses ← Outline.resolveHeads schema store owner rest
    pure (clause :: clauses)

end

def resolve (schema : Schema) (store : Store) (type : EntityType) (conditions : Tree) :
    Run (List Clause) :=
  conditions.outline.resolve schema store (some type)

end AccessRules
