import AccessRules.Check

/-! Permission to act on one entity. Some rule has to allow it and none may deny it. -/
namespace AccessRules
variable [Pattern.Engine]

def Rule.holds (schema : Schema) (store : Store) (type : EntityType) (rule : Rule)
    (entity : Document) : Run Bool :=
  match rule.conditions with
  | .tree conditions => check schema store type conditions entity
  | .scope selector => Run.ofFilter (Filter.holds selector.document entity)
  | .block test => pure (test entity)

/-- Goes through rules in order, with whether one has allowed so far. Once one has, the others that
allow are not evaluated; one that denies ends the search. -/
def decideBy (schema : Schema) (store : Store) (type : EntityType) (entity : Document)
    (allowed : Bool) : List Rule → Run Bool
  | [] => pure allowed
  | rule :: rest =>
    if rule.allows then
      if allowed then decideBy schema store type entity true rest
      else do decideBy schema store type entity (← rule.holds schema store type entity) rest
    else do
      if ← rule.holds schema store type entity then pure false
      else decideBy schema store type entity allowed rest

def permits (schema : Schema) (store : Store) (type : EntityType) (rules : List Rule)
    (entity : Document) : Run Bool :=
  decideBy schema store type entity false (Rule.applicable rules type)

end AccessRules
