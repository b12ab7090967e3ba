import AccessRules.Text.Hex

/-! Twelve-byte object identifiers, ordered as their bytes. -/
namespace AccessRules

structure ObjectId where
  value : BitVec 96
  deriving DecidableEq, Repr, Inhabited

namespace ObjectId

def bytes (id : ObjectId) : List UInt8 := Text.Hex.ofNat 12 id.value.toNat

def toHex (id : ObjectId) : String := Text.Hex.encode id.bytes

def ofHex? (s : String) : Option ObjectId :=
  ((Text.Hex.decode s).filter (·.length = 12)).map fun bytes =>
    ⟨BitVec.ofNat 96 (Text.Hex.toNat bytes)⟩

/-- The first of the identifiers that the program makes up: a time, a process, and a counter at
zero. -/
def firstGenerated : Nat := 0x690000000000000000000000

def generated (n : Nat) : ObjectId := ⟨BitVec.ofNat 96 (firstGenerated + n)⟩

def generatedIndex? (id : ObjectId) : Option Nat :=
  let n := id.value.toNat
  if firstGenerated ≤ n ∧ n < firstGenerated + (1 <<< 24) then some (n - firstGenerated) else none

def order (a b : ObjectId) : Ordering := compare a.value.toNat b.value.toNat

end ObjectId
end AccessRules
