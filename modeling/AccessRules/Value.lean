import AccessRules.Double
import AccessRules.ObjectId
import AccessRules.Decimal128
import AccessRules.Instant

/-! The values that documents hold. A document is a list of fields in the order they were written;
documents that are read from outside have distinct keys. -/
namespace AccessRules

inductive Atom where
  | null
  | undefined
  | minKey
  | maxKey
  | bool (b : Bool)
  | int32 (n : Int32)
  | int64 (n : Int64)
  | double (x : Double)
  | text (s : String)
  | symbol (s : String)
  | code (s : String)
  | objectId (id : ObjectId)
  | instant (t : Instant)
  | timestamp (time increment : UInt32)
  | pattern (source options : String)
  | binary (subtype : UInt8) (bytes : List UInt8)
  | decimal (d : Decimal128)
  | pointer (collection : String) (id : ObjectId)
  deriving DecidableEq, Repr, Inhabited

inductive Value where
  | atom (a : Atom)
  | array (items : List Value)
  | document (fields : List (String × Value))
  | scopedCode (source : String) (scope : List (String × Value))
  deriving Repr

/-- Fields in the order they were written. -/
abbrev Document := List (String × Value)

namespace Value

instance : Inhabited Value := ⟨.atom .null⟩

abbrev null : Value := .atom .null
abbrev bool (b : Bool) : Value := .atom (.bool b)
abbrev int32 (n : Int32) : Value := .atom (.int32 n)
abbrev int64 (n : Int64) : Value := .atom (.int64 n)
abbrev double (x : Double) : Value := .atom (.double x)
abbrev text (s : String) : Value := .atom (.text s)
abbrev objectId (id : ObjectId) : Value := .atom (.objectId id)

end Value

namespace Document

def insert (key : String) (value : Value) : Document → Document
  | [] => [(key, value)]
  | (k, v) :: rest => if k = key then (key, value) :: rest else (k, v) :: insert key value rest

/-- The document that holds for each key its last value, at the place of its first. -/
def ofPairs (pairs : List (String × Value)) : Document :=
  pairs.foldl (fun doc (key, value) => insert key value doc) []

@[simp] theorem lookup_insert (key k : String) (value : Value) (doc : Document) :
    (insert key value doc).lookup k = if k = key then some value else doc.lookup k := by
  induction doc with
  | nil => by_cases h : k = key <;> simp [insert, h, List.lookup_cons, beq_false_of_ne]
  | cons field rest ih =>
    unfold insert
    split <;> grind

def hasKey (doc : Document) (key : String) : Bool := (doc.lookup key).isSome

end Document
end AccessRules
