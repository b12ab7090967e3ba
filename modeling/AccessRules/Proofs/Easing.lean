import AccessRules.Proofs.Consequence
import AccessRules.Proofs.Join
import Mathlib.Data.List.Forall2

/-! Filters that are eased. If the operators on some fields of a filter are replaced by others that
they entail, the filter entails the one that results: on an entity always, and on an element of a
field unless one of the replaced operands is compared with the element as it stands, or negated. -/
namespace AccessRules

/-- Whether a key is an operator that compares a value with its operand as it stands, or that
negates its operand. -/
def Operator.isRigid (key : String) : Bool :=
  key == eq.token || key == ne.token || key == not.token

theorem Operator.isRigid_of_ofKey? {key : String} {op : Operator} (h : ofKey? key = some op)
    (hop : op = eq ∨ op = ne ∨ op = not) : isRigid key = true := by
  rw [← token_of_ofKey? h]
  rcases hop with rfl | rfl | rfl <;> decide

namespace Filter

/-- A field of a filter and one in its place: the same, or operators that the first ones entail. -/
inductive Eased [Pattern.Engine] : String × Value → String × Value → Prop where
  | same (pair) : Eased pair pair
  | operators (key) {ops ops'} :
    isOperatorExpression ops = true → isOperatorExpression ops' = true →
    (∀ leaves, Entails (operatorsHold ops ops leaves) (operatorsHold ops' ops' leaves)) →
    Eased (key, .document ops) (key, .document ops')

def Unmoved (filter filter' : Document) : Prop :=
  List.Forall₂ (fun pair pair' => pair = pair' ∨ Operator.isRigid pair.1 = false) filter filter'

theorem Unmoved.refl (filter : Document) : Unmoved filter filter :=
  List.forall₂_same.mpr fun _ _ => .inl rfl

/-- What the operators of a list read of the whole list: the options of a pattern, and whether there
is one. -/
structure SameOptions (all all' : Document) : Prop where
  text : optionsText? all = optionsText? all'
  regex : all.hasKey Operator.regex.token = all'.hasKey Operator.regex.token

section Operands
variable {all all' : Document}

theorem operandHolds_congr [Pattern.Engine] {op : Option Operator}
    (htext : op = some .regex → optionsText? all = optionsText? all')
    (hregex : op = some .options →
      all.hasKey Operator.regex.token = all'.hasKey Operator.regex.token)
    (key : String) (operand : Value) (leaves : Leaves) :
    operandHolds all key op operand leaves = operandHolds all' key op operand leaves := by
  cases op with
  | none => rfl
  | some op =>
    cases op with
    | regex => cases operand <;> simp [operandHolds, patternOperand, htext rfl]
    | options => simp [operandHolds, hregex rfl]
    | _ => rfl

/-- Of the whole list a pattern reads its options, options read whether there is a pattern, and
nothing else reads any of it. -/
theorem operatorHolds_congr [Pattern.Engine] {key : String}
    (htext : Operator.ofKey? key = some .regex → optionsText? all = optionsText? all')
    (hregex : Operator.ofKey? key = some .options →
      all.hasKey Operator.regex.token = all'.hasKey Operator.regex.token)
    (operand : Value) (leaves : Leaves) :
    operatorHolds all key operand leaves = operatorHolds all' key operand leaves := by
  cases operand with
  | document ops =>
    unfold operatorHolds
    split
    · rfl
    · rfl
    · exact operandHolds_congr htext hregex _ _ _
  | _ =>
    unfold operatorHolds
    exact operandHolds_congr htext hregex _ _ _

theorem SameOptions.operatorHolds_eq [Pattern.Engine] (h : SameOptions all all') (key : String)
    (operand : Value) (leaves : Leaves) :
    operatorHolds all key operand leaves = operatorHolds all' key operand leaves :=
  operatorHolds_congr (fun _ => h.text) (fun _ => h.regex) operand leaves

theorem operatorHolds_document [Pattern.Engine] {key : String}
    (hnot : Operator.ofKey? key ≠ some .not)
    (helement : Operator.ofKey? key ≠ some .elemMatch) (all ops : Document) (leaves : Leaves) :
    operatorHolds all key (.document ops) leaves =
      operandHolds all key (Operator.ofKey? key) (.document ops) leaves := by
  unfold operatorHolds
  split
  · next h => exact absurd h hnot
  · next h => exact absurd h helement
  · rfl

@[simp] theorem someOrdered_document (leaves : Leaves) (ops : Document) (accept : Ordering → Bool) :
    someOrdered leaves (.document ops) accept = false := by
  unfold someOrdered
  rw [List.any_eq_false]
  intro leaf _
  cases leaf <;> simp [Value.order?]

theorem operandHolds_document [Pattern.Engine] (key : String) {op : Option Operator}
    (heq : op ≠ some .eq) (hne : op ≠ some .ne) (ops ops' : Document) (leaves : Leaves) :
    operandHolds all key op (.document ops) leaves =
      operandHolds all key op (.document ops') leaves := by
  cases op with
  | none => rfl
  | some op =>
    cases op with
    | eq => exact absurd rfl heq
    | ne => exact absurd rfl hne
    | gt | gte | lt | lte => simp [operandHolds, someOrdered_document]
    | _ => rfl

end Operands

section Eased
variable {pair pair' : String × Value} {filter filter' : Document}

theorem eased_refl [Pattern.Engine] (filter : Document) : List.Forall₂ Eased filter filter :=
  List.forall₂_same.mpr fun pair _ => .same pair

theorem Eased.key_eq [Pattern.Engine] (h : Eased pair pair') : pair.1 = pair'.1 := by
  cases h <;> rfl

theorem Eased.entails_field [Pattern.Engine] (h : Eased pair pair') (entity : Document) :
    Entails (fieldHolds pair.1 pair.2 entity) (fieldHolds pair'.1 pair'.2 entity) := by
  cases h with
  | same => exact .refl _
  | operators key hops hops' hentails =>
    cases ht : Operator.isToken key with
    | true => exact fun _ => ne_ok_of_error (fieldHolds_misplaced ht _ entity) false
    | false =>
      have hkey := Operator.ofKey?_eq_none ht
      simp only [fieldHolds_path hkey, conditionHolds, hops, hops', if_true]
      exact hentails _

theorem entails_holds [Pattern.Engine] (h : List.Forall₂ Eased filter filter') (entity : Document) :
    Entails (holds filter entity) (holds filter' entity) := by
  induction h with
  | nil => exact .refl _
  | cons hpair _ ih =>
    rw [holds, holds]
    exact (hpair.entails_field entity).andThen fun _ => ih

theorem map_key_eq [Pattern.Engine] (h : List.Forall₂ Eased filter filter') :
    filter.map (·.1) = filter'.map (·.1) := by
  induction h with
  | nil => rfl
  | cons hpair _ ih => rw [List.map_cons, List.map_cons, hpair.key_eq, ih]

theorem isOperatorExpression_perm (h : (filter.map (·.1)).Perm (filter'.map (·.1))) :
    isOperatorExpression filter = isOperatorExpression filter' := by
  have hempty := h.isEmpty_eq
  have hall := h.all_eq (f := Operator.isToken)
  simp only [List.isEmpty_map, List.all_map] at hempty hall
  unfold isOperatorExpression
  rw [hempty]
  exact congrArg _ hall

theorem optionsText?_eq_some_iff {all : Document} {s : String} :
    optionsText? all = some s ↔ all.lookup Operator.options.token = some (.text s) := by
  unfold optionsText?
  split
  · next text h => simp [h, Value.text]
  · next hnone => simpa using hnone s

theorem SameOptions.cons (h : SameOptions filter filter') (key : String) {value value' : Value}
    (htext : ∀ s, value = .text s ↔ value' = .text s) :
    SameOptions ((key, value) :: filter) ((key, value') :: filter') := by
  constructor
  · apply Option.ext
    intro s
    have hrest := congrArg (· = some s) h.text
    simp only [optionsText?_eq_some_iff, List.lookup_cons] at hrest ⊢
    split
    · simpa using htext s
    · exact iff_of_eq hrest
  · have hrest := h.regex
    simp only [Document.hasKey, List.lookup_cons] at hrest ⊢
    split
    · rfl
    · exact hrest

variable [Pattern.Engine]

theorem sameOptions (h : List.Forall₂ Eased filter filter') : SameOptions filter filter' := by
  induction h with
  | nil => exact ⟨rfl, rfl⟩
  | cons hpair _ ih =>
    cases hpair with
    | same => exact ih.cons _ fun s => Iff.rfl
    | operators key => exact ih.cons key fun s => ⟨nofun, nofun⟩

theorem Eased.entails_operator (h : Eased pair pair')
    (hrigid : pair = pair' ∨ Operator.isRigid pair.1 = false) (all : Document) (leaves : Leaves) :
    Entails (operatorHolds all pair.1 pair.2 leaves)
      (operatorHolds all pair'.1 pair'.2 leaves) := by
  cases h with
  | same => exact .refl _
  | @operators key ops ops' hops hops' hentails =>
    rcases hrigid with heq | hrigid
    · rw [heq]
      exact .refl _
    have hnot : ∀ op, op = .eq ∨ op = .ne ∨ op = .not → Operator.ofKey? key ≠ some op := by
      intro op hop hkey
      rw [Operator.isRigid_of_ofKey? hkey hop] at hrigid
      cases hrigid
    -- one operator looks into its operand; to the others left, one document is like another
    by_cases helement : Operator.ofKey? key = some .elemMatch
    · simp only [operatorHolds, helement, hops, hops', if_true]
      exact .anyM fun item _ => hentails [some item]
    · have hlooks := hnot .not (.inr (.inr rfl))
      rw [operatorHolds_document hlooks helement, operatorHolds_document hlooks helement,
        operandHolds_document key (hnot .eq (.inl rfl)) (hnot .ne (.inr (.inl rfl))) ops ops']
      exact .refl _

theorem entails_operatorsHold (h : List.Forall₂ Eased filter filter')
    (hrigid : Unmoved filter filter') {all all' : Document} (hall : SameOptions all all')
    (leaves : Leaves) :
    Entails (operatorsHold all filter leaves) (operatorsHold all' filter' leaves) := by
  induction h with
  | nil => exact .refl _
  | cons hpair _ ih =>
    cases hrigid with
    | cons hfirst hmore =>
      rw [operatorsHold, operatorsHold, ← hall.operatorHolds_eq]
      exact (hpair.entails_operator hfirst all leaves).andThen fun _ => ih hmore

end Eased
end Filter

namespace Clause
variable {clauses clauses' : List Clause}

theorem collide_congr (h : (pairsOf clauses).map (·.1) = (pairsOf clauses').map (·.1)) :
    Collide clauses ↔ Collide clauses' := by
  unfold Collide
  rw [h]

variable [Pattern.Engine]

theorem entails_elementHolds
    (h : List.Forall₂ Filter.Eased (pairsOf clauses) (pairsOf clauses'))
    (hrigid : isOperatorExpression (pairsOf clauses) = true →
      Filter.Unmoved (pairsOf clauses) (pairsOf clauses')) (item : Value) :
    Entails (Filter.elementHolds (document clauses) item)
      (Filter.elementHolds (document clauses') item) := by
  have hkeys := Filter.map_key_eq h
  by_cases hc : Collide clauses'
  · rw [elementHolds_of_collide hc]
    exact .of_error _
  rw [document_of_not_collide hc, document_of_not_collide (mt (collide_congr hkeys).mp hc)]
  unfold Filter.elementHolds
  rw [← Filter.isOperatorExpression_perm (.of_eq hkeys)]
  split
  · next hops => exact Filter.entails_operatorsHold h (hrigid hops) (Filter.sameOptions h) _
  · cases item with
    | document element => exact Filter.entails_holds h element
    | _ => exact .refl _

theorem eased_embedded {inside inside' : List Clause}
    (h : ∀ item, Entails (Filter.elementHolds (document inside) item)
      (Filter.elementHolds (document inside') item)) (key : String) (element : EntityType) :
    List.Forall₂ Filter.Eased (embedded key element inside).pairs
      (embedded key element inside').pairs := by
  rw [pairs, pairs]
  apply List.Forall₂.cons _ .nil
  apply Filter.Eased.operators key (Filter.isOperatorExpression_singleton rfl _)
    (Filter.isOperatorExpression_singleton rfl _)
  intro leaves
  have hop : Operator.ofKey? Operator.elemMatch.token = some .elemMatch := rfl
  rw [Filter.operatorsHold_singleton, Filter.operatorsHold_singleton, Filter.operatorHolds,
    Filter.operatorHolds, hop]
  exact .anyM fun item _ => h item

theorem eased_foreignKey {ids ids' : List Value}
    (h : ∀ leaves, Entails (ids.anyM (Filter.listed leaves)) (ids'.anyM (Filter.listed leaves)))
    (key : String) :
    List.Forall₂ Filter.Eased (foreignKey key ids).pairs (foreignKey key ids').pairs := by
  rw [pairs, pairs]
  apply List.Forall₂.cons _ .nil
  apply Filter.Eased.operators key (Filter.isOperatorExpression_singleton rfl _)
    (Filter.isOperatorExpression_singleton rfl _)
  intro leaves
  have hop : Operator.ofKey? Operator.isIn.token = some .isIn := rfl
  have hlisted := h leaves
  rw [← Filter.someListed_eq_anyM, ← Filter.someListed_eq_anyM] at hlisted
  rw [Filter.operatorsHold_singleton, Filter.operatorsHold_singleton, Filter.operatorHolds,
    Filter.operatorHolds, hop]
  exact hlisted

end Clause

/-- Each identifier of a list stands in another one, or one that is identical to it and has the keys
of its documents in the same order. -/
def IdsWithin (ids ids' : List Value) : Prop :=
  ∀ id ∈ ids, ∃ other ∈ ids',
    other = id ∨ other.identical id = true ∧ other.alike id = true

theorem IdsWithin.entails_listed [Pattern.Engine] {ids ids' : List Value} (h : IdsWithin ids ids')
    (leaves : Filter.Leaves) :
    Entails (ids.anyM (Filter.listed leaves)) (ids'.anyM (Filter.listed leaves)) := by
  intro htrue hfalse
  obtain ⟨id, hid, hlisted⟩ := exists_of_anyM_eq_true htrue
  obtain ⟨other, hother, heq⟩ := h id hid
  have hnot := anyM_eq_false_iff.mp hfalse other hother
  rcases heq with rfl | ⟨-, halike⟩
  · simp [hlisted] at hnot
  · simp [Filter.listed_of_alike halike hlisted] at hnot

namespace MemoryStore
variable {store store' : MemoryStore} {type : EntityType}

def Within (store store' : MemoryStore) : Prop :=
  ∀ type, store.documents type ⊆ store'.documents type

theorem idsWithin_identifiers [Pattern.Engine] (hids : store'.OrderedIds)
    (hwithin : store.Within store') {sel sel' : Selector} {ids ids' : List Value}
    (hsel : ∀ doc, Entails (Filter.holds sel.document doc) (Filter.holds sel'.document doc))
    (h : store.identifiers type sel = .ok ids) (h' : store'.identifiers type sel' = .ok ids') :
    IdsWithin ids ids' := by
  intro id hid
  obtain ⟨hfound, hall⟩ := identifiers_eq h
  obtain ⟨hfound', hall'⟩ := identifiers_eq h'
  rw [hfound] at hid
  obtain ⟨doc, hdoc, hlookup⟩ := List.mem_filterMap.mp (mem_of_mem_distinct hid)
  obtain ⟨hdoc, haccepts⟩ := List.mem_filter.mp hdoc
  have hstill : Filter.accepts sel'.document doc = true := by
    have htrue := hall doc hdoc
    rw [haccepts] at htrue
    have hnot := hsel doc htrue
    rw [hall' doc (hwithin type hdoc)] at hnot
    simpa using hnot
  have hvalue := List.mem_filterMap.mpr
    ⟨doc, List.mem_filter.mpr ⟨hwithin type hdoc, hstill⟩, hlookup⟩
  obtain ⟨kept, hkept, heq⟩ := exists_distinct hvalue
  rw [← hfound'] at hkept
  refine ⟨kept, hkept, heq.imp_right fun hidentical => ⟨hidentical, ?_⟩⟩
  rw [hfound'] at hkept
  exact hids type kept (mem_ids_of_mem_filterMap (mem_of_mem_distinct hkept)) id
    (mem_ids_of_mem_filterMap hvalue) hidentical

end MemoryStore
end AccessRules
