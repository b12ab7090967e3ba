import AccessRules.Proofs.Form

/-! What clauses mean. A clause on elements asks for one element that satisfies what is inside, and
any other clause for every condition that it puts on keys. The filter that clauses amount to decides
this wherever it can be evaluated, unless conditions on elements read as operators. -/
namespace AccessRules

/-- Whether a field is an array with a document in it that satisfies a condition. -/
def anyElement (value : Option Value) (holds : Document → Bool) : Bool :=
  match value with
  | some (.array items) => items.any fun
    | .document element => holds element
    | _ => false
  | _ => false

namespace Clause

mutual

def met [Pattern.Engine] : Clause → Document → Bool
  | field key condition, entity => Filter.accepts [(key, condition.toValue)] entity
  | path key inside, entity =>
    (path key inside).pairs.all fun pair => Filter.accepts [pair] entity
  | embedded key _ inside, entity =>
    anyElement (entity.lookup key) fun element => allMet inside element
  | foreignKey key ids, entity =>
    Filter.accepts [(key, .document [(Operator.isIn.token, .array ids)])] entity

def allMet [Pattern.Engine] : List Clause → Document → Bool
  | [], _ => true
  | clause :: rest, entity => clause.met entity && allMet rest entity

end

theorem allMet_eq_all [Pattern.Engine] (clauses : List Clause) (entity : Document) :
    allMet clauses entity = clauses.all fun clause => clause.met entity := by
  induction clauses with
  | nil => simp [allMet]
  | cons clause rest ih => rw [allMet, List.all_cons, ih]

mutual

/-- Whether the conditions inside a clause on elements do not read as operators, at any depth. -/
def legible : Clause → Bool
  | embedded _ _ inside => !isOperatorExpression (pairsOf inside) && allLegible inside
  | _ => true

def allLegible : List Clause → Bool
  | [] => true
  | clause :: rest => clause.legible && allLegible rest

end

@[simp] theorem allLegible_iff {clauses : List Clause} :
    allLegible clauses = true ↔ ∀ clause ∈ clauses, clause.legible = true := by
  induction clauses with
  | nil => simp [allLegible]
  | cons clause rest ih => simp [allLegible, ih]

mutual

def Undivided : Clause → Prop
  | embedded key _ inside => splitKey key = none ∧ UndividedAll inside
  | _ => True

def UndividedAll : List Clause → Prop
  | [] => True
  | clause :: rest => clause.Undivided ∧ UndividedAll rest

end

@[simp] theorem undividedAll_iff {clauses : List Clause} :
    UndividedAll clauses ↔ ∀ clause ∈ clauses, clause.Undivided := by
  induction clauses with
  | nil => simp [UndividedAll]
  | cons clause rest ih => simp [UndividedAll, ih]

variable [Pattern.Engine]

theorem decides_elementHolds {inside : List Clause}
    (hl : isOperatorExpression (pairsOf inside) = false)
    (h : ∀ element, Decides (Filter.holds (document inside) element) (allMet inside element))
    (item : Value) :
    Decides (Filter.elementHolds (document inside) item)
      (match item with
        | .document element => allMet inside element
        | _ => false) := by
  by_cases hc : Collide inside
  · -- a collision is an error on every element, which decides anything
    rw [elementHolds_of_collide hc]
    exact Decides.of_error _
  · unfold Filter.elementHolds
    rw [document_of_not_collide hc, if_neg (by simp [hl]), ← document_of_not_collide hc]
    cases item with
    | document element => exact h element
    | atom a => exact Decides.pure_iff.mpr rfl
    | array items => exact Decides.pure_iff.mpr rfl
    | scopedCode source scope => exact Decides.pure_iff.mpr rfl

theorem decides_elementFilter {key : String} (hu : splitKey key = none) {inside : List Clause}
    (hl : isOperatorExpression (pairsOf inside) = false)
    (h : ∀ element, Decides (Filter.holds (document inside) element) (allMet inside element))
    (entity : Document) :
    Decides (Filter.holds (elementFilter key inside) entity)
      (anyElement (entity.lookup key) fun element => allMet inside element) := by
  rw [elementFilter, Filter.holds_singleton]
  cases ht : Operator.isToken key with
  | true =>
    obtain ⟨e, he⟩ := Filter.fieldHolds_misplaced ht
      [(Operator.elemMatch.token, .document (document inside))] entity
    rw [he]
    exact Decides.of_error e
  | false =>
    rw [Filter.fieldHolds_elemMatch (.of_undivided hu ht), Path.elements_field]
    cases entity.lookup key with
    | none => exact Decides.pure_iff.mpr rfl
    | some value =>
      cases value with
      | array items => exact Decides.anyM fun item _ => decides_elementHolds hl h item
      | atom a => exact Decides.pure_iff.mpr rfl
      | document fields => exact Decides.pure_iff.mpr rfl
      | scopedCode source scope => exact Decides.pure_iff.mpr rfl

mutual

theorem decides_met (clause : Clause) (hu : clause.Undivided) (hl : clause.legible = true)
    (entity : Document) :
    Decides (Filter.holds clause.pairs entity) (clause.met entity) := by
  match clause with
  | field key condition =>
    rw [pairs, met]
    exact Filter.decides_accepts _ _
  | path key inside =>
    rw [met, Filter.holds_eq_allM]
    refine Decides.allM fun pair _ => ?_
    rw [← Filter.holds_singleton]
    exact Filter.decides_accepts _ _
  | foreignKey key ids =>
    rw [pairs, met]
    exact Filter.decides_accepts _ _
  | embedded key element inside =>
    rw [legible, Bool.and_eq_true, Bool.not_eq_true'] at hl
    rw [pairs_embedded, met]
    exact decides_elementFilter hu.1 hl.1
      (fun element => decides_allMet inside hu.2 hl.2 element) entity

/-- The filter of clauses decides whether all of them are met. -/
theorem decides_allMet (clauses : List Clause) (hu : UndividedAll clauses)
    (hl : allLegible clauses = true) (entity : Document) :
    Decides (Filter.holds (document clauses) entity) (allMet clauses entity) := by
  rw [holds_document]
  match clauses with
  | [] =>
    rw [pairsOf, Filter.holds, allMet]
    exact Decides.pure_iff.mpr rfl
  | clause :: rest =>
    rw [allLegible, Bool.and_eq_true] at hl
    rw [pairsOf, Filter.holds_append, allMet, ← holds_document]
    exact (decides_met clause hu.1 hl.1 entity).andThen fun _ =>
      decides_allMet rest hu.2 hl.2 entity

end

end Clause

namespace Resolves
variable {schema : Schema} {store : Store} {owner : Option EntityType}
  {heads : List (String × Outline)} {clauses : List Clause}

theorem undividedAll_append {o : Outline} {below : List Clause} (h : Clause.UndividedAll below) :
    Clause.UndividedAll (o.ownClauses ++ below) := by
  refine Clause.undividedAll_iff.mpr fun clause hc => ?_
  rcases List.mem_append.mp hc with hc | hc
  · obtain ⟨entry, -, rfl⟩ := List.mem_map.mp hc
    trivial
  · exact Clause.undividedAll_iff.mp h clause hc

theorem undividedAll (h : Resolves schema store owner heads clauses)
    (hu : Outline.UndividedHeads heads) : Clause.UndividedAll clauses := by
  induction h with
  | nil => trivial
  | empty _ _ _ ih => exact ⟨trivial, ih hu.2.2⟩
  | plain _ _ _ _ _ ih => exact ⟨trivial, ih hu.2.2⟩
  | embedded _ _ _ _ ihBelow ih =>
    exact ⟨⟨hu.1, undividedAll_append (ihBelow (Outline.heads_undivided hu.2.1))⟩, ih hu.2.2⟩
  | foreignKey _ _ _ _ _ _ ih => exact ⟨trivial, ih hu.2.2⟩

end Resolves

theorem resolve_undividedAll {schema : Schema} {store : Store} {type : EntityType} {tree : Tree}
    {clauses : List Clause} (h : (resolve schema store type tree).result = .ok clauses) :
    Clause.UndividedAll clauses := by
  obtain ⟨below, hbelow, rfl⟩ := Outline.resolves_of_ok _ h
  exact Resolves.undividedAll_append
    (hbelow.undividedAll (Outline.heads_undivided tree.outline_undivided))

end AccessRules
