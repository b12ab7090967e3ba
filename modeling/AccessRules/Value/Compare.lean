import AccessRules.Value.Identity

/-! Equality and order of stored values as conditions see them: numbers of every width form one
class, arrays and documents agree part by part in order, and only values of one class are
ordered. -/
namespace AccessRules

inductive Number where
  | integer (n : Int)
  | double (x : Double)
  deriving DecidableEq, Repr

namespace Number

def toDouble : Number → Double
  | .integer n => Double.ofInt n
  | .double x => x

/-- Integers compare exactly; any other pair compares after conversion to binary64. -/
def compare? : Number → Number → Option Ordering
  | .integer a, .integer b => some (compare a b)
  | a, b => a.toDouble.compare? b.toDouble

def isZero : Number → Bool
  | .integer n => n == 0
  | .double x => x.isNegligible

end Number

def Atom.number? : Atom → Option Number
  | .int32 n => some (.integer n.toInt)
  | .int64 n => some (.integer n.toInt)
  | .double x => some (.double x)
  | _ => none

def Value.number? : Value → Option Number
  | .atom a => a.number?
  | _ => none

def Atom.agrees (a b : Atom) : Bool :=
  match a.number?, b.number? with
  | some x, some y => x.compare? y == some .eq
  | _, _ => a.identical b

mutual

/-- Equality as conditions see it. -/
def Value.agrees : Value → Value → Bool
  | .atom a, .atom b => a.agrees b
  | .array xs, .array ys => agreesItems xs ys
  | .document xs, .document ys => agreesFields xs ys
  | .scopedCode a xs, .scopedCode b ys => (Value.scopedCode a xs).identical (.scopedCode b ys)
  | _, _ => false

def agreesItems : List Value → List Value → Bool
  | [], [] => true
  | x :: xs, y :: ys => x.agrees y && agreesItems xs ys
  | _, _ => false

def agreesFields : List (String × Value) → List (String × Value) → Bool
  | [], [] => true
  | (k, x) :: xs, (l, y) :: ys => k == l && x.agrees y && agreesFields xs ys
  | _, _ => false

end

def Atom.order? (a b : Atom) : Option Ordering :=
  match a.number?, b.number? with
  | some x, some y => x.compare? y
  | _, _ =>
    match a, b with
    | .text x, .text y => some (compare x y)
    | .instant x, .instant y => some (compare x.millis.toInt y.millis.toInt)
    | .objectId x, .objectId y => some (x.order y)
    | .bool x, .bool y => some (compare x.toNat y.toNat)
    | .timestamp t i, .timestamp u j =>
      some ((compare t.toNat u.toNat).then (compare i.toNat j.toNat))
    | _, _ => none

/-- The order within one class of values; nothing across classes. -/
def Value.order? : Value → Value → Option Ordering
  | .atom a, .atom b => a.order? b
  | _, _ => none

/-- Null, undefined, false and numbers next to zero are false; all else is true. -/
def Value.isAffirmative : Value → Bool
  | .atom (.bool b) => b
  | .atom .null => false
  | .atom .undefined => false
  | v => match v.number? with
    | some n => !n.isZero
    | none => true

end AccessRules
