import AccessRules.Configuration
import AccessRules.Rule
import AccessRules.Value.ExtendedJson

/-! Rules files: a list of rules, each with a behavior, a subject and either conditions or a scope.
A rule with neither is about every entity of its subject. -/
namespace AccessRules

structure WrittenRule where
  behavior : Behavior
  subject : Subject
  conditions : Option Json
  scope : Option Json
  deriving Repr

inductive RuleFault where
  | twoSources
  | document (fault : ExtendedJson.DocumentFault)
  deriving Repr

def RuleFault.message : RuleFault → String
  | twoSources => "`conditions` and `scope` are mutually exclusive"
  | document fault => fault.message

inductive RulesError where
  | load (error : LoadError)
  | rule (index : Nat) (fault : RuleFault)
  deriving Repr

/-- The text of an error; it names a faulty rule by its index. -/
def RulesError.message? : RulesError → Option String
  | load _ => none
  | rule index fault => some ("rule #" ++ toString index ++ ": " ++ fault.message)

def Behavior.ofName? : String → Option Behavior
  | "allow" => some allow
  | "deny" => some deny
  | _ => none

namespace WrittenRule

structure Parts where
  behavior : Option Behavior
  subject : Option Subject
  conditions : Option Json
  scope : Option Json

def fields : Setting.Fields Parts := [
  ("behavior", fun p v => do pure { p with behavior := some (← v.toChoice Behavior.ofName?) }),
  ("subject", fun p v => do pure { p with subject := some (Subject.ofName (← v.toText)) }),
  ("conditions", fun p v => do pure { p with conditions := ← v.optional Setting.toJson }),
  ("scope", fun p v => do pure { p with scope := ← v.optional Setting.toJson })]

def ofSetting (v : Setting) : Load WrittenRule := do
  let (parts, missing) ← v.toRecord fields ⟨none, none, none, none⟩
  match parts.behavior, parts.subject with
  | some behavior, some subject => pure ⟨behavior, subject, parts.conditions, parts.scope⟩
  | _, _ => throw missing

def toRule (entry : WrittenRule) : Except RuleFault Rule := do
  let conditions ← match entry.conditions, entry.scope with
    | some _, some _ => throw .twoSources
    | some tree, none => do
      let doc ← (ExtendedJson.readDocument tree).mapError .document
      pure (.tree (Tree.ofDocument doc))
    | none, some selector => do
      let doc ← (ExtendedJson.readDocument selector).mapError .document
      pure (.scope ⟨doc⟩)
    | none, none => pure (.tree [])
  pure ⟨entry.behavior, entry.subject, conditions⟩

end WrittenRule

namespace RulesFile

def entriesOfSetting (v : Setting) : Load (List WrittenRule) := do
  let fields : Setting.Fields (List WrittenRule) :=
    [("rules", fun _ v => v.toList WrittenRule.ofSetting)]
  pure (← v.toRecord fields []).1

/-- The rules that entries state, in order; the first entry that states none is reported. -/
def rulesFrom (index : Nat) : List WrittenRule → Except RulesError (List Rule)
  | [] => pure []
  | entry :: entries => do
    let rule ← entry.toRule.mapError (.rule index)
    let rules ← rulesFrom (index + 1) entries
    pure (rule :: rules)

def toRules (entries : List WrittenRule) : Except RulesError (List Rule) := rulesFrom 0 entries

def entries (yaml : String) : Load (List WrittenRule) := do
  entriesOfSetting (← Configuration.readFile yaml)

def rules (yaml : String) : Except RulesError (List Rule) := do
  toRules (← (entries yaml).mapError .load)

end RulesFile
end AccessRules
