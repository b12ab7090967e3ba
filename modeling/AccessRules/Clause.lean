import AccessRules.Rule

/-! Clauses: conditions in which every relation is resolved, so that they are about the fields of
one document. -/
namespace AccessRules

inductive Clause where
  /-- A condition on a field as it was written. -/
  | field (key : String) (condition : Condition)
  /-- Clauses inside a subdocument that is no relation. -/
  | path (key : String) (inside : List Clause)
  /-- Clauses on the elements of an embedded relation. -/
  | embedded (key : String) (element : EntityType) (inside : List Clause)
  /-- The field holds one of some identifiers. -/
  | foreignKey (key : String) (ids : List Value)
  deriving Repr

namespace Clause

def key : Clause → String
  | field key _ => key
  | path key _ => key
  | embedded key _ _ => key
  | foreignKey key _ => key

/-- Conditions on keys as one filter: its fields if the keys differ, and a conjunction of filters
with one field each otherwise. -/
def conjoin (pairs : List (String × Value)) : Document :=
  if (pairs.map (·.1)).Nodup then pairs
  else [(Operator.and.token, .array (pairs.map fun pair => .document [pair]))]

mutual

def pairs : Clause → List (String × Value)
  | .field key condition => [(key, condition.toValue)]
  | .path key inside => (pairsOf inside).map fun pair => (key ++ "." ++ pair.1, pair.2)
  | .embedded key _ inside =>
    [(key, .document [(Operator.elemMatch.token, .document (conjoin (pairsOf inside)))])]
  | .foreignKey key ids => [(key, .document [(Operator.isIn.token, .array ids)])]

def pairsOf : List Clause → List (String × Value)
  | [] => []
  | clause :: rest => clause.pairs ++ pairsOf rest

end

def document (clauses : List Clause) : Document := conjoin (pairsOf clauses)

def selector (clauses : List Clause) : Selector := ⟨document clauses⟩

def tree (clauses : List Clause) : Tree := Tree.ofDocument (document clauses)

def isOwn : Clause → Bool
  | field _ _ => true
  | foreignKey _ _ => true
  | _ => false

def ownSelector (clauses : List Clause) : Selector := selector (clauses.filter isOwn)

end Clause
end AccessRules
