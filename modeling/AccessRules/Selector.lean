import AccessRules.Operator
import AccessRules.Value.Identity

/-! Selectors: filters in the form that a store takes, and how they combine. -/
namespace AccessRules

structure Selector where
  document : Document
  deriving Repr

namespace Selector

def everything : Selector := ⟨[]⟩

def identifierField : String := "_id"

/-- Selects nothing: an identifier that is missing is no object identifier. -/
def nothing : Selector :=
  ⟨[(identifierField,
    .document [(Operator.present.token, .bool false), (Operator.type.token, .int32 7)])]⟩

def isEverything (s : Selector) : Bool := s.document.isEmpty

def isNothing (s : Selector) : Bool := s.document.identical nothing.document

/-- One selector stands for itself and none selects everything. -/
def join (op : Operator) : List Selector → Selector
  | [] => everything
  | [only] => only
  | selectors => ⟨[(op.token, .array (selectors.map fun s => .document s.document))]⟩

def conjunction (selectors : List Selector) : Selector := join .and selectors

def disjunction (selectors : List Selector) : Selector := join .or selectors

def negation (s : Selector) : Selector := ⟨[(Operator.nor.token, .array [.document s.document])]⟩

end Selector
end AccessRules
