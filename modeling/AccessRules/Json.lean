import AccessRules.Double

/-! JSON values. Integers are those of 64 bits with or without sign; every other number is a
binary64 number. Objects keep their fields in the order in which keys first appear. -/
namespace AccessRules

inductive Json where
  | null
  | bool (b : Bool)
  | integer (n : Int)
  | double (x : Double)
  | text (s : String)
  | array (items : List Json)
  | object (fields : List (String × Json))
  deriving Repr

namespace Json

instance : Inhabited Json := ⟨null⟩

inductive Fault where
  /-- The text is no JSON, or a number in it is too large. -/
  | malformed
  /-- The value has another form. -/
  | mismatch
  deriving DecidableEq, Repr

end Json
end AccessRules
