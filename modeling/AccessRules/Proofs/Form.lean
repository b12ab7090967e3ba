import AccessRules.Pattern.Syntax
import AccessRules.Proofs.Evaluation
import AccessRules.Proofs.Literal
import AccessRules.Proofs.Path

/-! The filter of clauses under the element operator, where a filter with operator keys only is read
as operators on the element. Clauses keep their meaning there unless two of them are on one key, or
all of them are on foreign keys that look like operators. -/
namespace AccessRules

namespace Filter

theorem isOperatorExpression_singleton {key : String} (h : Operator.isToken key = true)
    (operand : Value) : isOperatorExpression [(key, operand)] = true := by
  simp [isOperatorExpression, h]

/-- The operand of the element operator on one element: operators on it, or a filter of it. -/
def elementHolds [Pattern.Engine] (operand : Document) (item : Value) : Except FilterError Bool :=
  if isOperatorExpression operand then operatorsHold operand operand [some item]
  else match item with
    | .document element => holds operand element
    | _ => pure false

theorem fieldHolds_operator [Pattern.Engine] {key token : String}
    (hk : Operator.isToken key = false)
    (ht : Operator.isToken token = true) (operand : Value) (entity : Document) :
    fieldHolds key (.document [(token, operand)]) entity =
      operatorHolds [(token, operand)] token operand (Path.leaves entity key) := by
  rw [fieldHolds, Operator.ofKey?_eq_none hk]
  simp only [isOperatorExpression_singleton ht, if_true]
  rw [operatorsHold_singleton]

theorem fieldHolds_elemMatch [Pattern.Engine] {key : String} (hk : FieldName key)
    (operand entity : Document) :
    fieldHolds key (.document [(Operator.elemMatch.token, .document operand)]) entity =
      (Path.elements [entity.lookup key]).anyM (elementHolds operand) := by
  have hop : Operator.ofKey? Operator.elemMatch.token = some .elemMatch := rfl
  rw [fieldHolds_operator hk.noToken rfl, Path.leaves_field hk.noDot, operatorHolds, hop]
  rfl

/-- Whether a field of a filter combines filters: a list beside a logical operator. -/
def combines (key : String) : Value → Bool
  | .array _ => (Operator.ofKey? key).any Operator.combinesFilters
  | _ => false

theorem combines_of_dot {key : String} (h : '.' ∈ key.toList) (condition : Value) :
    combines key condition = false := by
  cases condition with
  | array items =>
    rw [combines]
    cases hop : Operator.ofKey? key with
    | none => rfl
    | some op =>
      have hkey := Operator.token_of_ofKey? hop
      cases op with
      | and | or | nor =>
        rw [← hkey] at h
        exact absurd h (by decide)
      | _ => rfl
  | _ => rfl

variable [Pattern.Engine]

theorem fieldHolds_operatorKey {key : String} (ht : Operator.isToken key = true)
    {condition : Value} (hc : combines key condition = false) (entity : Document) :
    ∃ e, fieldHolds key condition entity = .error e := by
  have hop : ∃ op, Operator.ofKey? key = some op := by
    rw [Operator.ofKey?, if_pos ht]
    exact ⟨_, rfl⟩
  obtain ⟨op, hop⟩ := hop
  cases condition with
  | array items =>
    rw [combines, hop] at hc
    rw [fieldHolds, hop]
    cases op with
    | and | or | nor => cases hc
    | _ => exact ⟨_, rfl⟩
  | _ =>
    rw [fieldHolds, hop]
    exact ⟨_, rfl⟩

theorem fieldHolds_misplaced {key : String} (hk : Operator.isToken key = true)
    (operand entity : Document) : ∃ e, fieldHolds key (.document operand) entity = .error e :=
  fieldHolds_operatorKey hk rfl entity

theorem accepts_misplaced {key : String} (hk : Operator.isToken key = true)
    (operand entity : Document) : accepts [(key, .document operand)] entity = false := by
  obtain ⟨e, he⟩ := fieldHolds_misplaced hk operand entity
  rw [accepts, holds_singleton, he]

end Filter

namespace Clause

mutual

def Filled : Clause → Prop
  | path _ inside => inside ≠ [] ∧ FilledAll inside
  | _ => True

def FilledAll : List Clause → Prop
  | [] => True
  | clause :: rest => clause.Filled ∧ FilledAll rest

end

@[simp] theorem filledAll_iff {clauses : List Clause} :
    FilledAll clauses ↔ ∀ clause ∈ clauses, clause.Filled := by
  induction clauses with
  | nil => simp [FilledAll]
  | cons clause rest ih => simp [FilledAll, ih]

mutual

theorem pairs_ne_nil (clause : Clause) (h : clause.Filled) : clause.pairs ≠ [] := by
  match clause with
  | field key condition => rw [pairs]; exact List.cons_ne_nil _ _
  | embedded key element inside => rw [pairs]; exact List.cons_ne_nil _ _
  | foreignKey key ids => rw [pairs]; exact List.cons_ne_nil _ _
  | path key inside =>
    rw [pairs]
    exact fun hnil => pairsOf_ne_nil inside h.1 h.2 (List.map_eq_nil_iff.mp hnil)

theorem pairsOf_ne_nil (clauses : List Clause) (hne : clauses ≠ []) (h : FilledAll clauses) :
    pairsOf clauses ≠ [] := by
  match clauses with
  | [] => exact absurd rfl hne
  | clause :: rest =>
    rw [pairsOf]
    exact fun hnil => pairs_ne_nil clause h.1 (List.append_eq_nil_iff.mp hnil).1

end

@[simp] theorem mem_pairsOf {clauses : List Clause} {pair : String × Value} :
    pair ∈ pairsOf clauses ↔ ∃ clause ∈ clauses, pair ∈ clause.pairs := by
  induction clauses with
  | nil => simp [pairsOf]
  | cons clause rest ih => simp [pairsOf, ih]

theorem isToken_of_mem_pairs {clause : Clause} {pair : String × Value} (h : pair ∈ clause.pairs) :
    Operator.isToken pair.1 = Operator.isToken clause.key := by
  cases clause with
  | field key condition =>
    rw [pairs, List.mem_singleton] at h
    rw [h, Clause.key]
  | path key inside =>
    rw [pairs, List.mem_map] at h
    obtain ⟨below, -, rfl⟩ := h
    exact Operator.isToken_append key below.1
  | embedded key element inside =>
    rw [pairs, List.mem_singleton] at h
    rw [h, Clause.key]
  | foreignKey key ids =>
    rw [pairs, List.mem_singleton] at h
    rw [h, Clause.key]

theorem all_pairsOf {clauses : List Clause} (h : FilledAll clauses) :
    (pairsOf clauses).all (fun pair => Operator.isToken pair.1) =
      clauses.all fun clause => Operator.isToken clause.key := by
  induction clauses with
  | nil => rfl
  | cons clause rest ih =>
    have hclause : (clause.pairs.all fun pair => Operator.isToken pair.1) =
        Operator.isToken clause.key := by
      have hconst : ∀ pair ∈ clause.pairs,
          Operator.isToken pair.1 = Operator.isToken clause.key :=
        fun pair hp => isToken_of_mem_pairs hp
      obtain ⟨first, more, hpairs⟩ := List.exists_cons_of_ne_nil (pairs_ne_nil clause h.1)
      rw [Bool.eq_iff_iff, List.all_eq_true]
      refine ⟨fun hall => ?_, fun hk pair hp => (hconst pair hp).trans hk⟩
      have hfirst : first ∈ clause.pairs := by
        rw [hpairs]
        exact List.mem_cons_self
      exact (hconst first hfirst).symm.trans (hall first hfirst)
    rw [pairsOf, List.all_append, List.all_cons, hclause, ih h.2]

theorem isOperatorExpression_pairsOf {clauses : List Clause} (h : FilledAll clauses) :
    isOperatorExpression (pairsOf clauses) =
      (!clauses.isEmpty && clauses.all fun clause => Operator.isToken clause.key) := by
  cases clauses with
  | nil => rfl
  | cons clause rest =>
    have hne := pairsOf_ne_nil (clause :: rest) (List.cons_ne_nil _ _) h
    rw [isOperatorExpression, all_pairsOf h, List.isEmpty_eq_false_iff.mpr hne]
    rfl

/-- Two conditions of the clauses are on the same key. -/
def Collide (clauses : List Clause) : Prop := ¬((pairsOf clauses).map (·.1)).Nodup

theorem document_of_collide {clauses : List Clause} (h : Collide clauses) :
    document clauses = [(Operator.and.token,
      .array ((pairsOf clauses).map fun pair => .document [pair]))] := by
  unfold document conjoin
  exact if_neg h

theorem document_of_not_collide {clauses : List Clause} (h : ¬Collide clauses) :
    document clauses = pairsOf clauses := by
  unfold document conjoin
  exact if_pos (not_not.mp h)

theorem isOperatorExpression_of_collide {clauses : List Clause} (h : Collide clauses) :
    isOperatorExpression (document clauses) = true := by
  rw [document_of_collide h]
  exact Filter.isOperatorExpression_singleton rfl _

theorem operatorsHold_of_collide [Pattern.Engine] {clauses : List Clause} (h : Collide clauses)
    (all : Document) (leaves : Filter.Leaves) :
    Filter.operatorsHold all (document clauses) leaves =
      .error (.unsupportedOperator Operator.and.token) := by
  have hop : Operator.ofKey? Operator.and.token = some .and := rfl
  rw [document_of_collide h, Filter.operatorsHold_singleton, Filter.operatorHolds, hop]
  rfl

theorem elementHolds_of_collide [Pattern.Engine] {clauses : List Clause} (h : Collide clauses)
    (item : Value) :
    Filter.elementHolds (document clauses) item =
      .error (.unsupportedOperator Operator.and.token) := by
  unfold Filter.elementHolds
  rw [if_pos (isOperatorExpression_of_collide h), operatorsHold_of_collide h]

theorem elementHolds_eq_ok [Pattern.Engine] {clauses : List Clause} {item : Value} {b : Bool}
    (hops : isOperatorExpression (pairsOf clauses) = false)
    (h : Filter.elementHolds (document clauses) item = .ok b) :
    (match item with
      | .document element => Filter.holds (pairsOf clauses) element
      | _ => .ok false) = .ok b := by
  by_cases hc : Collide clauses
  · rw [elementHolds_of_collide hc] at h
    cases h
  · unfold Filter.elementHolds at h
    rwa [document_of_not_collide hc, if_neg (by simp [hops])] at h

/-- All clauses are on foreign keys that look like operators, and there is one. -/
def OperatorsOnly (clauses : List Clause) : Prop :=
  clauses ≠ [] ∧ ∀ clause ∈ clauses, ∃ key ids,
    clause = foreignKey key ids ∧ Operator.isToken key = true

theorem OperatorsOnly.holds_error [Pattern.Engine] {clauses : List Clause}
    (h : OperatorsOnly clauses)
    (entity : Document) : ∃ e, Filter.holds (document clauses) entity = .error e := by
  obtain ⟨clause, rest, rfl⟩ := List.exists_cons_of_ne_nil h.1
  obtain ⟨key, ids, rfl, hk⟩ := h.2 clause List.mem_cons_self
  obtain ⟨e, he⟩ := Filter.fieldHolds_misplaced hk [(Operator.isIn.token, .array ids)] entity
  rw [holds_document, pairsOf, pairs, List.singleton_append, Filter.holds, he]
  exact ⟨e, rfl⟩

end Clause

namespace Resolves
variable {schema : Schema} {store : Store} {owner : Option EntityType}
  {heads : List (String × Outline)} {clauses : List Clause}

theorem filledAll_own (o : Outline) : Clause.FilledAll o.ownClauses := by
  refine Clause.filledAll_iff.mpr fun clause hc => ?_
  obtain ⟨entry, -, rfl⟩ := List.mem_map.mp hc
  trivial

theorem filledAll_append {o : Outline} {below : List Clause} (h : Clause.FilledAll below) :
    Clause.FilledAll (o.ownClauses ++ below) :=
  Clause.filledAll_iff.mpr fun clause hc => (List.mem_append.mp hc).elim
    (Clause.filledAll_iff.mp (filledAll_own o) clause) (Clause.filledAll_iff.mp h clause)

theorem filledAll (h : Resolves schema store owner heads clauses) : Clause.FilledAll clauses := by
  induction h with
  | nil => trivial
  | empty _ _ _ ih => exact ⟨trivial, ih⟩
  | plain _ hempty hbelow _ ihBelow ih =>
    have hne := List.isEmpty_eq_false_iff.mp (hbelow.isEmpty_own_append.trans hempty)
    exact ⟨⟨hne, filledAll_append ihBelow⟩, ih⟩
  | embedded _ _ _ _ _ ih => exact ⟨trivial, ih⟩
  | foreignKey _ _ _ _ _ _ ih => exact ⟨trivial, ih⟩

theorem foreignKey_of_isToken (h : Resolves schema store owner heads clauses)
    (ht : ∀ head ∈ heads, Operator.isToken head.1 = false) :
    ∀ clause ∈ clauses, Operator.isToken clause.key = true →
      ∃ key ids, clause = .foreignKey key ids ∧ Operator.isToken key = true := by
  induction h with
  | nil => simp
  | foreignKey _ _ _ _ _ _ ih =>
    intro clause hc hk
    rcases List.mem_cons.mp hc with rfl | hc
    · exact ⟨_, _, rfl, hk⟩
    · exact ih (fun head hh => ht head (List.mem_cons_of_mem _ hh)) clause hc hk
  | empty _ _ _ ih | plain _ _ _ _ _ ih | embedded _ _ _ _ _ ih =>
    intro clause hc hk
    rcases List.mem_cons.mp hc with rfl | hc
    · exact absurd hk (by simpa [Clause.key] using ht _ List.mem_cons_self)
    · exact ih (fun head hh => ht head (List.mem_cons_of_mem _ hh)) clause hc hk

end Resolves

section Element
variable {schema : Schema} {store : Store} {type : EntityType} {tree : Tree}
  {clauses : List Clause}

/-- The conditions of clauses that come from field keys read as operators only where all of them are
on foreign keys that look like operators. -/
theorem isOperatorExpression_resolved (h : (resolve schema store type tree).result = .ok clauses)
    (ht : ∀ entry ∈ tree, Operator.isToken entry.1 = false) :
    isOperatorExpression (Clause.pairsOf clauses) = true ↔ Clause.OperatorsOnly clauses := by
  obtain ⟨below, hbelow, rfl⟩ := Outline.resolves_of_ok _ h
  have hown : ∀ clause ∈ tree.outline.ownClauses, Operator.isToken clause.key = false := by
    intro clause hc
    obtain ⟨entry, he, rfl⟩ := List.mem_map.mp hc
    exact Tree.noToken_of_mem_direct ht entry he
  rw [Clause.isOperatorExpression_pairsOf (Resolves.filledAll_append hbelow.filledAll),
    Bool.and_eq_true, List.all_eq_true, Bool.not_eq_true', List.isEmpty_eq_false_iff]
  refine and_congr_right fun _ => forall₂_congr fun clause hc => ⟨fun hk => ?_, ?_⟩
  · rcases List.mem_append.mp hc with hc | hc
    · exact absurd hk (by simp [hown clause hc])
    · exact hbelow.foreignKey_of_isToken (Tree.noToken_of_mem_heads ht) clause hc hk
  · rintro ⟨key, ids, rfl, hk⟩
    exact hk

/-- The filter of clauses as it is put on the elements of a field. -/
def Clause.elementFilter (field : String) (clauses : List Clause) : Document :=
  [(field, .document [(Operator.elemMatch.token, .document (Clause.document clauses))])]

@[simp] theorem Clause.pairs_embedded (field : String) (element : EntityType)
    (clauses : List Clause) :
    (Clause.embedded field element clauses).pairs = Clause.elementFilter field clauses := by
  rw [Clause.pairs]
  rfl

theorem holds_elementFilter [Pattern.Engine] {field : String} (hf : FieldName field)
    (clauses : List Clause) (element : Document) :
    Filter.holds (Clause.elementFilter field clauses) [(field, .array [.document element])] =
      if isOperatorExpression (Clause.document clauses) then
        Filter.operatorsHold (Clause.document clauses) (Clause.document clauses)
          [some (.document element)]
      else Filter.holds (Clause.document clauses) element := by
  have hlookup : [(field, Value.array [.document element])].lookup field =
      some (.array [.document element]) := by simp
  rw [Clause.elementFilter, Filter.holds_singleton, Filter.fieldHolds_elemMatch hf, hlookup,
    Path.elements_field, List.anyM_cons, List.anyM_nil, confirm_eq]
  rfl

theorem holds_elementFilter_of_collide [Pattern.Engine] {field : String} (hf : FieldName field)
    (hc : Clause.Collide clauses) (element : Document) :
    Filter.holds (Clause.elementFilter field clauses) [(field, .array [.document element])] =
      .error (.unsupportedOperator Operator.and.token) := by
  rw [holds_elementFilter hf, if_pos (Clause.isOperatorExpression_of_collide hc),
    Clause.operatorsHold_of_collide hc]

theorem holds_elementFilter_eq [Pattern.Engine]
    (h : (resolve schema store type tree).result = .ok clauses)
    (ht : ∀ entry ∈ tree, Operator.isToken entry.1 = false) {field : String}
    (hf : FieldName field) (hc : ¬Clause.Collide clauses) (hops : ¬Clause.OperatorsOnly clauses)
    (element : Document) :
    Filter.holds (Clause.elementFilter field clauses) [(field, .array [.document element])] =
      Filter.holds (Clause.document clauses) element := by
  have hexpr : ¬isOperatorExpression (Clause.document clauses) = true := by
    rw [Clause.document_of_not_collide hc, isOperatorExpression_resolved h ht]
    exact hops
  rw [holds_elementFilter hf, if_neg hexpr]

/-- What conditions resolve to, put on the only element of a field, says of the element what it says
of an entity, except that clauses on one key are refused there, and that foreign keys that look like
operators are refused elsewhere. So the two results differ exactly where a collision is no error on
the entity, or such foreign keys are none on the element. -/
theorem elementFilter_agrees_iff [Pattern.Engine]
    (h : (resolve schema store type tree).result = .ok clauses)
    (ht : ∀ entry ∈ tree, Operator.isToken entry.1 = false) {field : String}
    (hf : FieldName field) (element : Document) :
    let inside := Filter.holds (Clause.elementFilter field clauses)
      [(field, .array [.document element])]
    let alone := Filter.holds (Clause.document clauses) element
    (Clause.Collide clauses → inside = .error (.unsupportedOperator Operator.and.token)) ∧
    (Clause.OperatorsOnly clauses → ∃ e, alone = .error e) ∧
    (¬Clause.Collide clauses → ¬Clause.OperatorsOnly clauses → inside = alone) ∧
    (inside.toOption = alone.toOption ↔
      (Clause.Collide clauses → alone.toOption = none) ∧
        (Clause.OperatorsOnly clauses → inside.toOption = none)) := by
  intro inside alone
  have hcollide : Clause.Collide clauses →
      inside = .error (.unsupportedOperator Operator.and.token) :=
    fun hc => holds_elementFilter_of_collide hf hc element
  have honly : Clause.OperatorsOnly clauses → ∃ e, alone = .error e :=
    fun hops => hops.holds_error element
  have hsame : ¬Clause.Collide clauses → ¬Clause.OperatorsOnly clauses → inside = alone :=
    fun hc hops => holds_elementFilter_eq h ht hf hc hops element
  refine ⟨hcollide, honly, hsame, ?_⟩
  by_cases hc : Clause.Collide clauses
  · have hinside : inside.toOption = none := by
      rw [hcollide hc]
      rfl
    rw [hinside]
    exact ⟨fun heq => ⟨fun _ => heq.symm, fun _ => rfl⟩, fun hboth => (hboth.1 hc).symm⟩
  · by_cases hops : Clause.OperatorsOnly clauses
    · obtain ⟨e, he⟩ := honly hops
      have halone : alone.toOption = none := by
        rw [he]
        rfl
      rw [halone]
      exact ⟨fun heq => ⟨fun _ => rfl, fun _ => heq⟩, fun hboth => hboth.2 hops⟩
    · rw [hsame hc hops]
      exact ⟨fun _ => ⟨fun h => absurd h hc, fun h => absurd h hops⟩, fun _ => rfl⟩

theorem elementFilter_agrees_tag :
    let schema : Schema := ⟨[("Tag", ⟨[("owner", ⟨.foreignKey, some ⟨"Owner"⟩, none⟩)], []⟩)]⟩
    let store : MemoryStore := .ofEntries [(⟨"Owner"⟩, [("_id", .int32 7), ("name", .text "X")])]
    let tree : Tree :=
      [("owner", .nested [("name", .scalar (.text "X"))]), ("title", .scalar (.text "A"))]
    let clauses : List Clause :=
      [.field "title" (.scalar (.text "A")), .foreignKey "owner_id" [.int32 7]]
    let element : Document := [("title", .text "A"), ("owner_id", .int32 7)]
    (resolve schema store ⟨"Tag"⟩ tree).result = .ok clauses ∧
      Filter.holds (Clause.elementFilter "tags" clauses) [("tags", .array [.document element])] =
        .ok true := by
  intro schema store tree clauses element
  have hresolve : (resolve schema store ⟨"Tag"⟩ tree).result = .ok clauses := by
    with_unfolding_all rfl
  have hkeys : ∀ entry ∈ tree, Operator.isToken entry.1 = false := by decide
  have hfield : FieldName "tags" := ⟨rfl, by decide⟩
  have hcollide : ¬Clause.Collide clauses := by
    intro hc
    exact hc (by decide)
  have hops : ¬Clause.OperatorsOnly clauses := by
    intro hops
    obtain ⟨key, ids, heq, -⟩ := hops.2 _ List.mem_cons_self
    cases heq
  refine ⟨hresolve, ?_⟩
  rw [(elementFilter_agrees_iff hresolve hkeys hfield element).2.2.1 hcollide hops]
  rfl

/-- An owner and the field that holds its identifier are one key: an entity satisfies both
conditions, and an element is refused. -/
theorem elementFilter_collision :
    let schema : Schema := ⟨[("Tag", ⟨[("owner", ⟨.foreignKey, some ⟨"Owner"⟩, none⟩)], []⟩)]⟩
    let store : MemoryStore := .ofEntries [(⟨"Owner"⟩, [("_id", .int32 7), ("name", .text "X")])]
    let tree : Tree :=
      [("owner", .nested [("name", .scalar (.text "X"))]), ("owner_id", .scalar (.int32 7))]
    let clauses : List Clause :=
      [.field "owner_id" (.scalar (.int32 7)), .foreignKey "owner_id" [.int32 7]]
    let element : Document := [("owner_id", .int32 7)]
    (resolve schema store ⟨"Tag"⟩ tree).result = .ok clauses ∧
      (∀ entry ∈ tree, Operator.isToken entry.1 = false) ∧
      Filter.holds (Clause.document clauses) element = .ok true ∧
      Filter.holds (Clause.elementFilter "tags" clauses) [("tags", .array [.document element])] =
        .error (.unsupportedOperator "$and") := by
  intro schema store tree clauses element
  have hfield : FieldName "tags" := ⟨rfl, by decide⟩
  have hcollide : Clause.Collide clauses := by
    unfold Clause.Collide
    decide
  exact ⟨by with_unfolding_all rfl, by decide, rfl,
    holds_elementFilter_of_collide hfield hcollide element⟩

end Element
end AccessRules
