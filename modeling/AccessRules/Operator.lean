/-! The vocabulary of query operators. A key that starts with `$` is an operator; one outside the
vocabulary is kept by its name, so that it reaches a store unchanged. -/
namespace AccessRules

inductive Operator where
  | eq | ne | gt | gte | lt | lte
  | isIn | notIn | all | size | present | type
  | regex | options | not | elemMatch
  | and | or | nor
  | other (token : String)
  deriving DecidableEq, Repr

namespace Operator

def isToken (key : String) : Bool := key.toList.head? == some '$'

def token : Operator → String
  | eq => "$eq"
  | ne => "$ne"
  | gt => "$gt"
  | gte => "$gte"
  | lt => "$lt"
  | lte => "$lte"
  | isIn => "$in"
  | notIn => "$nin"
  | all => "$all"
  | size => "$size"
  | present => "$exists"
  | type => "$type"
  | regex => "$regex"
  | options => "$options"
  | not => "$not"
  | elemMatch => "$elemMatch"
  | and => "$and"
  | or => "$or"
  | nor => "$nor"
  | other token => token

/-- The operators with a meaning of their own. -/
def vocabulary : List Operator :=
  [eq, ne, gt, gte, lt, lte, isIn, notIn, all, size, present, type, regex, options, not, elemMatch,
    and, or, nor]

def ofKey? (key : String) : Option Operator :=
  if isToken key then some ((vocabulary.find? fun op => op.token == key).getD (other key)) else none

def combinesFilters : Operator → Bool
  | and | or | nor => true
  | _ => false

theorem token_of_ofKey? {key : String} {op : Operator} (h : ofKey? key = some op) :
    op.token = key := by
  unfold ofKey? at h
  split at h
  · cases hf : vocabulary.find? fun op => op.token == key with
    | none =>
      simp only [hf, Option.getD_none, Option.some.injEq] at h
      subst h
      rfl
    | some o =>
      have := List.find?_some hf
      simp_all
  · simp at h

end Operator
end AccessRules
