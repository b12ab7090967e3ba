import AccessRules.Condition

/-! The entries of a condition tree by the first segment of their keys. A dotted key `a.b` says the
same as `a` with `b` inside; only the first segment is split off here. -/
namespace AccessRules

/-- The parts of a key around its first dot; nothing for operators and keys without a dot. -/
def splitKey (key : String) : Option (String × String) :=
  if Operator.isToken key then none
  else
    match key.toList.dropWhile (· ≠ '.') with
    | _ :: tail => some (String.ofList (key.toList.takeWhile (· ≠ '.')), String.ofList tail)
    | [] => none

/-- Entries that descend into a field, merged by field, and conditions on fields themselves. -/
structure Split where
  heads : KeyMap Tree
  direct : KeyMap Condition
  deriving Repr

namespace Split

def addBelow (head : String) (below : Tree) (split : Split) : Split :=
  let merged := fun (present : Option Tree) => Tree.mergeAll (present.getD []) below
  { split with heads := KeyMap.alter merged head split.heads }

def add (key : String) (condition : Condition) (split : Split) : Split :=
  match splitKey key with
  | some (head, tail) => split.addBelow head [(tail, condition)]
  | none =>
    match condition with
    | .nested below => split.addBelow key below
    | condition => { split with direct := KeyMap.insert key condition split.direct }

end Split

def Tree.split (tree : Tree) : Split :=
  tree.foldl (fun split entry => split.add entry.1 entry.2) ⟨[], []⟩

end AccessRules
