import AccessRules.Condition
import AccessRules.Schema
import AccessRules.Selector

/-! Rules: what they grant or revoke, for which entity types, and on which entities. -/
namespace AccessRules

inductive Behavior where
  | allow
  | deny
  deriving DecidableEq, Repr

inductive Subject where
  | all
  | type (type : EntityType)
  deriving DecidableEq, Repr

namespace Subject

def allName : String := "all"

def ofName (name : String) : Subject := if name = allName then all else type ⟨name⟩

def name : Subject → String
  | all => allName
  | type t => t.name

def covers : Subject → EntityType → Bool
  | all, _ => true
  | type t, u => t = u

end Subject

inductive Criterion where
  | tree (conditions : Tree)
  /-- A selector that is used as it stands. -/
  | scope (selector : Selector)
  /-- A test on one entity, without a form as a selector. -/
  | block (test : Document → Bool)

structure Rule where
  behavior : Behavior
  subject : Subject
  conditions : Criterion

namespace Rule

def allows (rule : Rule) : Bool := rule.behavior = .allow

/-- Whether the rule is about every entity of its subject. -/
def isUnconditional (rule : Rule) : Bool :=
  match rule.conditions with
  | .tree conditions => conditions.isEmpty
  | _ => false

def isBlock (rule : Rule) : Bool :=
  match rule.conditions with
  | .block _ => true
  | _ => false

def applicable (rules : List Rule) (type : EntityType) : List Rule :=
  rules.filter (·.subject.covers type)

end Rule
end AccessRules
