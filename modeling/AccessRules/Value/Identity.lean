import AccessRules.Value

/-! Identity of values: same kind and same content. The order of a document's fields is no content,
and doubles are identical when they are numerically equal. -/
namespace AccessRules

def Atom.identical : Atom → Atom → Bool
  | .double x, .double y => x.numEq y
  | a, b => decide (a = b)

mutual

def Value.identical : Value → Value → Bool
  | .atom a, .atom b => a.identical b
  | .array xs, .array ys => identicalItems xs ys
  | .document xs, .document ys => xs.length == ys.length && identicalFields xs ys
  | .scopedCode a xs, .scopedCode b ys =>
    a == b && (xs.length == ys.length && identicalFields xs ys)
  | _, _ => false

def identicalItems : List Value → List Value → Bool
  | [], [] => true
  | x :: xs, y :: ys => x.identical y && identicalItems xs ys
  | _, _ => false

/-- Every field of the first list has an identical value in the second. -/
def identicalFields : List (String × Value) → List (String × Value) → Bool
  | [], _ => true
  | (key, x) :: xs, ys =>
    (match ys.lookup key with
      | some y => x.identical y
      | none => false) && identicalFields xs ys

end

def Document.identical (xs ys : Document) : Bool := (Value.document xs).identical (.document ys)

end AccessRules
