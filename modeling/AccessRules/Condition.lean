import AccessRules.KeyMap
import AccessRules.Operator
import AccessRules.Value

/-! Condition trees. The value beside a key is classified by its shape once: an operator
expression, a nested tree, a list, or a scalar. -/
namespace AccessRules

inductive Condition where
  | scalar (value : Value)
  | list (items : List Value)
  | operators (entries : List (Operator × Value))
  | nested (tree : List (String × Condition))
  deriving Repr

instance : Inhabited Condition := ⟨.list []⟩

/-- Conditions by field key, sorted. Keys may be dotted paths. -/
abbrev Tree := KeyMap Condition

/-- A document that is not empty and has operator keys only. -/
def isOperatorExpression (doc : Document) : Bool :=
  !doc.isEmpty && doc.all fun field => Operator.isToken field.1

theorem isOperatorExpression_iff {doc : Document} :
    isOperatorExpression doc = true ↔
      doc ≠ [] ∧ ∀ field ∈ doc, Operator.isToken field.1 = true := by
  simp [isOperatorExpression]

theorem isOperatorExpression_eq_false {doc : Document} {field : String × Value}
    (hmem : field ∈ doc) (ht : Operator.isToken field.1 = false) :
    isOperatorExpression doc = false := by
  rw [Bool.eq_false_iff]
  intro hops
  have htoken := (isOperatorExpression_iff.mp hops).2 field hmem
  rw [ht] at htoken
  cases htoken

namespace Operators

/-- The entries of an operator document in their order; other keys are dropped. -/
def ofDocument (doc : Document) : List (Operator × Value) :=
  doc.filterMap fun (key, operand) => (Operator.ofKey? key).map (·, operand)

def toDocument (entries : List (Operator × Value)) : Document :=
  Document.ofPairs (entries.map fun (op, operand) => (op.token, operand))

def insert (op : Operator) (operand : Value) : List (Operator × Value) → List (Operator × Value)
  | [] => [(op, operand)]
  | (o, v) :: rest => if o = op then (op, operand) :: rest else (o, v) :: insert op operand rest

def get? (op : Operator) (entries : List (Operator × Value)) : Option Value :=
  (entries.find? fun entry => entry.1 = op).map (·.2)

def isOnly (op : Operator) : List (Operator × Value) → Bool
  | [(only, _)] => decide (only = op)
  | _ => false

end Operators

mutual

def Condition.ofValue : Value → Condition
  | .document doc =>
    if isOperatorExpression doc then .operators (Operators.ofDocument doc)
    else .nested (KeyMap.ofList (Condition.ofFields doc))
  | .array items => .list items
  | value => .scalar value

def Condition.ofFields : List (String × Value) → List (String × Condition)
  | [] => []
  | (key, value) :: rest => (key, Condition.ofValue value) :: Condition.ofFields rest

end

mutual

/-- The value as it was written, up to the order of the keys of nested trees. -/
def Condition.toValue : Condition → Value
  | .scalar value => value
  | .list items => .array items
  | .operators entries => .document (Operators.toDocument entries)
  | .nested tree => .document (Tree.toFields tree)

def Tree.toFields : List (String × Condition) → List (String × Value)
  | [] => []
  | (key, condition) :: rest => (key, condition.toValue) :: Tree.toFields rest

end

namespace Tree

def ofDocument (doc : Document) : Tree := KeyMap.ofList (Condition.ofFields doc)

def toDocument (tree : Tree) : Document := Tree.toFields tree

end Tree

mutual

/-- The condition that results from adding one to what its key holds: two nested trees are merged,
and otherwise the added one stands. -/
def Condition.mergeOnto : Condition → Option Condition → Condition
  | .nested added, some (.nested present) => .nested (Tree.mergeEntries added present)
  | added, _ => added

def Tree.mergeEntries : List (String × Condition) → Tree → Tree
  | [], tree => tree
  | (key, added) :: rest, tree => Tree.mergeEntries rest (KeyMap.alter added.mergeOnto key tree)

end

namespace Tree

def merge (key : String) (condition : Condition) (tree : Tree) : Tree :=
  KeyMap.alter condition.mergeOnto key tree

def mergeAll (tree added : Tree) : Tree := mergeEntries added tree

end Tree
end AccessRules
