import AccessRules.Proofs.Traversal

/-! Ranges and equality. Values of one class are ordered by the equality that conditions see, so a
closed range is an open one together with its bound, and a value of the operand's class is below
it, equal to it or above it. A double may be none of these. -/
namespace AccessRules

/-- The classes of values that are ordered; the integers of both widths are one. -/
inductive OrderClass where
  | integer | double | text | instant | objectId | bool | timestamp
  deriving DecidableEq, Repr

def Value.orderClass? : Value → Option OrderClass
  | .atom (.int32 _) => some .integer
  | .atom (.int64 _) => some .integer
  | .atom (.double _) => some .double
  | .atom (.text _) => some .text
  | .atom (.instant _) => some .instant
  | .atom (.objectId _) => some .objectId
  | .atom (.bool _) => some .bool
  | .atom (.timestamp _ _) => some .timestamp
  | _ => none

namespace Atom
variable {a b : Atom}

theorem decide_eq_beq {o : Ordering} (h : o = .eq ↔ a = b) :
    decide (a = b) = (some o == some .eq) := by
  rw [Bool.eq_iff_iff, decide_eq_true_eq, beq_iff_eq, Option.some.injEq, h]

theorem agrees_eq_order? (h : (Value.atom b).orderClass?.isSome = true) :
    a.agrees b = (a.order? b == some .eq) := by
  cases b with
  | int32 _ | int64 _ | double _ => cases a <;> rfl
  | text s =>
    cases a with
    | text r => exact decide_eq_beq (by rw [Std.compare_eq_iff_eq, text.injEq])
    | _ => rfl
  | instant t =>
    cases a with
    | instant u =>
      refine decide_eq_beq ?_
      cases t
      cases u
      rw [Std.compare_eq_iff_eq, Int64.toInt_inj, instant.injEq, Instant.mk.injEq]
    | _ => rfl
  | objectId id =>
    cases a with
    | objectId other =>
      refine decide_eq_beq ?_
      cases id
      cases other
      rw [ObjectId.order, Std.compare_eq_iff_eq, BitVec.toNat_inj, objectId.injEq,
        ObjectId.mk.injEq]
    | _ => rfl
  | bool v =>
    cases a with
    | bool w => cases v <;> cases w <;> rfl
    | _ => rfl
  | timestamp t i =>
    cases a with
    | timestamp u j =>
      refine decide_eq_beq ?_
      rw [Ordering.then_eq_eq, Std.compare_eq_iff_eq, Std.compare_eq_iff_eq, UInt32.toNat_inj,
        UInt32.toNat_inj, timestamp.injEq]
    | _ => rfl
  | _ => cases h

end Atom

namespace Value
variable {value operand : Value}

theorem agrees_eq_order? (h : operand.orderClass?.isSome = true) :
    value.agrees operand = (value.order? operand == some .eq) := by
  cases operand with
  | atom b =>
    cases value with
    | atom a => exact Atom.agrees_eq_order? h
    | _ => rfl
  | _ => cases h

theorem isSome_order? {c : OrderClass} (hc : c ≠ .double) (hv : value.orderClass? = some c)
    (ho : operand.orderClass? = some c) : (value.order? operand).isSome = true := by
  unfold orderClass? at hv ho
  cases c with
  | double => exact absurd rfl hc
  | _ =>
    -- the class decides the form of both values
    split at ho <;> cases ho <;> split at hv <;> cases hv <;> rfl

end Value

/-- The orders to its operand that an operator of comparison accepts. -/
def Operator.comparison? : Operator → Option (Ordering → Bool)
  | eq => some Ordering.isEq
  | gt => some Ordering.isGT
  | gte => some Ordering.isGE
  | lt => some Ordering.isLT
  | lte => some Ordering.isLE
  | _ => none

/-- Of below, equal and above, one accepts a given order. -/
theorem Operator.existsUnique_comparison {holds : Operator → Prop} (o : Ordering)
    (h : ∀ op accept, comparison? op = some accept → (holds op ↔ accept o = true)) :
    ∃! op, op ∈ [lt, eq, gt] ∧ holds op := by
  have hlt := h lt _ rfl
  have heq := h eq _ rfl
  have hgt := h gt _ rfl
  simp only [List.mem_cons, List.not_mem_nil, or_false]
  cases o with
  | lt =>
    refine ⟨lt, ⟨.inl rfl, hlt.mpr rfl⟩, ?_⟩
    rintro op ⟨rfl | rfl | rfl, hop⟩
    · rfl
    · cases heq.mp hop
    · cases hgt.mp hop
  | eq =>
    refine ⟨eq, ⟨.inr (.inl rfl), heq.mpr rfl⟩, ?_⟩
    rintro op ⟨rfl | rfl | rfl, hop⟩
    · cases hlt.mp hop
    · rfl
    · cases hgt.mp hop
  | gt =>
    refine ⟨gt, ⟨.inr (.inr rfl), hgt.mpr rfl⟩, ?_⟩
    rintro op ⟨rfl | rfl | rfl, hop⟩
    · cases hlt.mp hop
    · cases heq.mp hop
    · rfl

namespace Filter
variable {leaves : Leaves} {operand : Value}

theorem someOrdered_or {accept accept' accept'' : Ordering → Bool}
    (h : ∀ o, accept o = (accept' o || accept'' o)) (leaves : Leaves) (operand : Value) :
    someOrdered leaves operand accept =
      (someOrdered leaves operand accept' || someOrdered leaves operand accept'') := by
  unfold someOrdered
  induction Path.expanded leaves with
  | nil => rfl
  | cons leaf rest ih =>
    have hleaf : ∀ o : Option Ordering, o.any accept = (o.any accept' || o.any accept'') := by
      rintro (_ | o)
      · rfl
      · exact h o
    rw [List.any_cons, List.any_cons, List.any_cons, ih]
    cases leaf with
    | none => rfl
    | some value =>
      dsimp only
      rw [hleaf]
      ac_rfl

theorem someEquals_eq_someOrdered (h : operand.orderClass?.isSome = true) (leaves : Leaves) :
    someEquals leaves operand = someOrdered leaves operand Ordering.isEq := by
  have hnull : operand ≠ .null := by
    rintro rfl
    cases h
  unfold someEquals someOrdered
  refine List.any_congr rfl fun leaf => ?_
  cases leaf with
  | some value =>
    dsimp only
    rw [Value.agrees_eq_order? h]
    rcases value.order? operand with _ | _ | _ | _ <;> rfl
  | none =>
    dsimp only
    split
    · exact absurd rfl hnull
    · rfl

theorem holds_comparison [Pattern.Engine] {key : String} (hk : Operator.isToken key = false)
    {op : Operator} {accept : Ordering → Bool} (hop : op.comparison? = some accept)
    (h : operand.orderClass?.isSome = true) (entity : Document) :
    holds [(key, .document [(op.token, operand)])] entity =
      .ok (someOrdered (Path.leaves entity key) operand accept) := by
  have hkey : Operator.ofKey? op.token = some op :=
    Operator.ofKey?_token (by rintro token rfl; cases hop)
  rw [holds_operator hk (Operator.isToken_of_ofKey? hkey),
    operatorHolds_eq_operandHolds _ hkey (by rintro rfl; cases hop) (by rintro rfl; cases hop)]
  cases op with
  | eq =>
    cases hop
    rw [← someEquals_eq_someOrdered h]
    rfl
  | gt | gte | lt | lte =>
    cases hop
    rfl
  | _ => cases hop

theorem someOrdered_singleton {value : Value} (h : value.orderClass?.isSome = true)
    (operand : Value) (accept : Ordering → Bool) :
    someOrdered [some value] operand accept = (value.order? operand).any accept := by
  have hspread : Path.expanded [some value] = [some value] := by
    cases value with
    | array items => cases h
    | _ => rfl
  rw [someOrdered, hspread]
  exact Bool.or_false _

/-- Beside a path, the operators of comparison with an operand of an ordered class give a verdict on
every entity. A closed range is the open one and its bound; and where the path reaches one value, of
the class of the operand, that value is below it, equal to it or above it, unless they are
doubles. -/
theorem comparison_agrees_with_equality [Pattern.Engine] {key : String}
    (hk : Operator.isToken key = false)
    {c : OrderClass} (hc : operand.orderClass? = some c) (entity : Document) :
    let verdict := fun (op : Operator) => holds [(key, .document [(op.token, operand)])] entity
    (∀ op ∈ [Operator.lt, .lte, .eq, .gte, .gt], ∃ b, verdict op = .ok b) ∧
    (verdict .gte = .ok true ↔ verdict .gt = .ok true ∨ verdict .eq = .ok true) ∧
    (verdict .lte = .ok true ↔ verdict .lt = .ok true ∨ verdict .eq = .ok true) ∧
    (c ≠ .double → ∀ value, Path.leaves entity key = [some value] → value.orderClass? = some c →
      ∃! op, op ∈ [Operator.lt, .eq, .gt] ∧ verdict op = .ok true) := by
  intro verdict
  have hclass : operand.orderClass?.isSome = true := by rw [hc]; rfl
  have hverdict : ∀ {op : Operator} {accept}, op.comparison? = some accept →
      verdict op = .ok (someOrdered (Path.leaves entity key) operand accept) :=
    fun hop => holds_comparison hk hop hclass entity
  have hlt := @hverdict .lt _ rfl
  have heq := @hverdict .eq _ rfl
  have hgt := @hverdict .gt _ rfl
  have hlte := @hverdict .lte _ rfl
  have hgte := @hverdict .gte _ rfl
  refine ⟨?_, ?_, ?_, fun hdouble value hleaf hvalue => ?_⟩
  · simp only [List.forall_mem_cons]
    exact ⟨⟨_, hlt⟩, ⟨_, hlte⟩, ⟨_, heq⟩, ⟨_, hgte⟩, ⟨_, hgt⟩, nofun⟩
  · have hor : ∀ o : Ordering, o.isGE = (o.isGT || o.isEq) := by decide
    rw [hgte, hgt, heq, someOrdered_or hor]
    simp only [Except.ok.injEq, Bool.or_eq_true]
  · have hor : ∀ o : Ordering, o.isLE = (o.isLT || o.isEq) := by decide
    rw [hlte, hlt, heq, someOrdered_or hor]
    simp only [Except.ok.injEq, Bool.or_eq_true]
  · obtain ⟨o, ho⟩ := Option.isSome_iff_exists.mp (Value.isSome_order? hdouble hvalue hc)
    have hvalue : value.orderClass?.isSome = true := by rw [hvalue]; rfl
    refine Operator.existsUnique_comparison o fun op accept hop => ?_
    rw [hverdict hop, hleaf, someOrdered_singleton hvalue, ho, Except.ok.injEq]
    rfl

theorem comparison_agrees_with_equality_age :
    let entity : Document := [("owner", .document [("age", .int32 7)])]
    let verdict := fun (op : Operator) =>
      holds [("owner.age", .document [(op.token, .int64 7)])] entity
    Operator.isToken "owner.age" = false ∧ (Value.int64 7).orderClass? = some .integer ∧
      OrderClass.integer ≠ .double ∧ Path.leaves entity "owner.age" = [some (.int32 7)] ∧
      (Value.int32 7).orderClass? = some .integer ∧
      (verdict .gte = .ok true ↔ verdict .gt = .ok true ∨ verdict .eq = .ok true) ∧
      (verdict .lte = .ok true ↔ verdict .lt = .ok true ∨ verdict .eq = .ok true) ∧
      verdict .eq = .ok true ∧
      ∃! op, op ∈ [Operator.lt, .eq, .gt] ∧ verdict op = .ok true := by
  intro entity verdict
  have hkey : Operator.isToken "owner.age" = false := rfl
  have hclass : (Value.int64 7).orderClass? = some .integer := rfl
  have hleaf : Path.leaves entity "owner.age" = [some (.int32 7)] := by with_unfolding_all rfl
  obtain ⟨-, hgte, hlte, hone⟩ := comparison_agrees_with_equality hkey hclass entity
  exact ⟨hkey, hclass, nofun, hleaf, rfl, hgte, hlte, by decide +kernel, hone nofun _ hleaf rfl⟩

/-- A double that is not a number is neither below itself nor equal to itself nor above itself. -/
example : ∀ op ∈ [Operator.lt, .eq, .gt],
    holds [("n", .document [(op.token, .double Double.nan)])] [("n", .double Double.nan)] =
      .ok false := by
  decide +kernel

end Filter
end AccessRules
