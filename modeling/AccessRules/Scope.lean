import AccessRules.Resolution

/-! Scopes: the one selector that a list of rules amounts to. Some rule has to allow and none may
deny; a deny without conditions, or no allow at all, selects nothing. -/
namespace AccessRules

def Rule.selector (schema : Schema) (store : Store) (type : EntityType) (rule : Rule) :
    Run Selector :=
  match rule.conditions with
  | .tree conditions => do pure (Clause.selector (← resolve schema store type conditions))
  | .scope selector => pure selector
  | .block _ => Run.fail (.uncompilable rule.subject)

inductive Contributions where
  /-- A rule denies everything; what follows it does not count. -/
  | denied
  | parts (alternatives exclusions : List Selector)
  deriving Repr

namespace Contributions

def alternative (s : Selector) : Contributions → Contributions
  | denied => denied
  | parts alternatives exclusions => parts (s :: alternatives) exclusions

def exclusion (s : Selector) : Contributions → Contributions
  | denied => denied
  | parts alternatives exclusions => parts alternatives (s.negation :: exclusions)

/-- The contributions of rules. If everything is allowed to begin with, the rules that allow are
left out. -/
def ofRules (schema : Schema) (store : Store) (type : EntityType) (allowed : Bool) :
    List Rule → Run Contributions
  | [] => pure (parts [] [])
  | rule :: rest =>
    if rule.allows then
      if allowed then ofRules schema store type allowed rest
      else do
        let s ← rule.selector schema store type
        let others ← ofRules schema store type allowed rest
        pure (others.alternative s)
    else if rule.isUnconditional then pure denied
    else do
      let s ← rule.selector schema store type
      let others ← ofRules schema store type allowed rest
      pure (others.exclusion s)

/-- The selector of contributions. Without alternatives it depends on whether everything is allowed
to begin with. -/
def selector (allowed : Bool) : Contributions → Selector
  | denied => Selector.nothing
  | parts [] exclusions => if allowed then Selector.conjunction exclusions else Selector.nothing
  | parts alternatives exclusions =>
    Selector.conjunction (Selector.disjunction alternatives :: exclusions)

end Contributions

/-- The selector of every stored entity that rules allow. A scope that stands alone is taken as it
is, whether it allows or denies. -/
def scope (schema : Schema) (store : Store) (type : EntityType) (rules : List Rule) :
    Run Selector :=
  match Rule.applicable rules type with
  | [] => pure Selector.nothing
  | [⟨_, _, .scope selector⟩] => pure selector
  | applicable =>
    match applicable.find? Rule.isBlock with
    | some rule => Run.fail (.uncompilable rule.subject)
    | none => do
      let allowed := applicable.any fun rule => rule.allows && rule.isUnconditional
      pure ((← Contributions.ofRules schema store type allowed applicable).selector allowed)

def allowedDocuments (schema : Schema) (store : Store) (type : EntityType) (rules : List Rule) :
    Run (List Document) := do
  Run.documents store type (← scope schema store type rules)

end AccessRules
