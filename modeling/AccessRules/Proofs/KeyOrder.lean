import AccessRules.Proofs.Easing
import AccessRules.Proofs.Grouping

/-! The order of keys. Filters and operators are evaluated key by key up to the first that does not
hold, so the order decides which errors are met; but where two orders both come to an answer, it is
the same one. -/
namespace AccessRules

/-- Two evaluations do not contradict each other: neither is false where the other one is true. -/
def Compatible {ε : Type} (r s : Except ε Bool) : Prop := Entails r s ∧ Entails s r

namespace Compatible
variable {ε α β : Type} {r s : Except ε Bool} {a b : Bool}

theorem refl (r : Except ε Bool) : Compatible r r := ⟨.refl r, .refl r⟩

theorem of_error (e : ε) (s : Except ε Bool) : Compatible (.error e) s := ⟨nofun, .of_error e⟩

theorem eq (h : Compatible (.ok a : Except ε Bool) (.ok b)) : a = b := by
  cases a with
  | true =>
    cases b with
    | true => rfl
    | false => exact absurd rfl (h.1 rfl)
  | false =>
    cases b with
    | true => exact absurd rfl (h.2 rfl)
    | false => rfl

theorem not (h : Compatible r s) : Compatible (do pure (!(← r))) (do pure (!(← s))) :=
  ⟨.not h.2, .not h.1⟩

section Lists
variable {f : α → Except ε Bool} {g : β → Except ε Bool} {pairs : List (α × β)}

theorem allM {xs : List α} (hperm : xs.Perm (pairs.map (·.1)))
    (h : ∀ pair ∈ pairs, Compatible (f pair.1) (g pair.2)) :
    Compatible (xs.allM f) ((pairs.map (·.2)).allM g) := by
  constructor
  · refine .allM_of_forall fun y hy => ?_
    obtain ⟨pair, hp, rfl⟩ := List.mem_map.mp hy
    exact ⟨pair.1, hperm.mem_iff.mpr (List.mem_map_of_mem hp), (h pair hp).1⟩
  · refine .allM_of_forall fun x hx => ?_
    obtain ⟨pair, hp, rfl⟩ := List.mem_map.mp (hperm.mem_iff.mp hx)
    exact ⟨pair.2, List.mem_map_of_mem hp, (h pair hp).2⟩

theorem anyM (h : ∀ pair ∈ pairs, Compatible (f pair.1) (g pair.2)) :
    Compatible ((pairs.map (·.1)).anyM f) ((pairs.map (·.2)).anyM g) := by
  constructor
  · refine .anyM_of_forall fun x hx => ?_
    obtain ⟨pair, hp, rfl⟩ := List.mem_map.mp hx
    exact ⟨pair.2, List.mem_map_of_mem hp, (h pair hp).1⟩
  · refine .anyM_of_forall fun y hy => ?_
    obtain ⟨pair, hp, rfl⟩ := List.mem_map.mp hy
    exact ⟨pair.1, List.mem_map_of_mem hp, (h pair hp).2⟩

theorem anyM_same {f g : α → Except ε Bool} {xs : List α}
    (h : ∀ x ∈ xs, Compatible (f x) (g x)) : Compatible (xs.anyM f) (xs.anyM g) :=
  ⟨.anyM fun x hx => (h x hx).1, .anyM fun x hx => (h x hx).2⟩

end Lists
end Compatible

@[simp] theorem Document.hasKey_iff {doc : Document} {key : String} :
    doc.hasKey key = true ↔ key ∈ doc.map (·.1) := by
  rw [hasKey, Option.isSome_iff_ne_none, ne_eq, List.lookup_eq_none_iff]
  grind

namespace Filter

/-- Whether a document beside a key is evaluated and not compared: as operators beside a path, and
as operators or a filter beside the operators that look into filters. -/
def opens (key : String) (doc : Document) : Bool :=
  match Operator.ofKey? key with
  | none => isOperatorExpression doc
  | some op => op == .not || op == .elemMatch

mutual

/-- A filter or a list of operators, and the same with its keys in another order, at any depth. -/
inductive Reordered : Document → Document → Prop
  | fields {doc : Document} (pairs : List ((String × Value) × (String × Value))) :
    doc.Perm (pairs.map (·.1)) → (∀ pair ∈ pairs, ReorderedField pair.1 pair.2) →
    Reordered doc (pairs.map (·.2))

/-- A field of a filter or an operator. Its filters and operators are reordered, and what is
compared stays as it is. Keys of a document are distinct. -/
inductive ReorderedField : String × Value → String × Value → Prop
  | same (field : String × Value) : ReorderedField field field
  | document {key : String} {doc doc' : Document} :
    opens key doc = true → (doc.map (·.1)).Nodup → Reordered doc doc' →
    ReorderedField (key, .document doc) (key, .document doc')
  | filters {key : String} (pairs : List (Value × Value)) :
    (Operator.ofKey? key).any Operator.combinesFilters = true →
    (∀ pair ∈ pairs, ReorderedItem pair.1 pair.2) →
    ReorderedField (key, .array (pairs.map (·.1))) (key, .array (pairs.map (·.2)))

inductive ReorderedItem : Value → Value → Prop
  | same (item : Value) : ReorderedItem item item
  | filter {doc doc' : Document} : Reordered doc doc' →
    ReorderedItem (.document doc) (.document doc')

end

section Fields
variable {doc doc' other : Document} {field field' : String × Value}

theorem Reordered.nil : Reordered [] [] := .fields [] .nil nofun

theorem Reordered.cons (hfield : ReorderedField field field') (h : Reordered doc doc') :
    Reordered (field :: doc) (field' :: doc') := by
  cases h with
  | fields pairs hperm hpairs =>
    exact .fields ((field, field') :: pairs) (hperm.cons field)
      (List.forall_mem_cons.mpr ⟨hfield, hpairs⟩)

theorem Reordered.refl (doc : Document) : Reordered doc doc := by
  induction doc with
  | nil => exact .nil
  | cons field doc ih => exact .cons (.same field) ih

theorem Reordered.after_perm (hperm : other.Perm doc) (h : Reordered doc doc') :
    Reordered other doc' := by
  cases h with
  | fields pairs hfields hpairs => exact .fields pairs (hperm.trans hfields) hpairs

theorem Reordered.of_perm (h : doc.Perm doc') : Reordered doc doc' :=
  .after_perm h (.refl doc')

end Fields

section Keys
variable {doc doc' : Document} {field field' : String × Value}

theorem ReorderedField.key_eq (h : ReorderedField field field') : field.1 = field'.1 := by
  cases h <;> rfl

theorem ReorderedField.text_iff (h : ReorderedField field field') (s : String) :
    field.2 = .text s ↔ field'.2 = .text s := by
  cases h with
  | same => exact Iff.rfl
  | document | filters => exact ⟨nofun, nofun⟩

theorem Reordered.perm_keys (h : Reordered doc doc') :
    (doc.map (·.1)).Perm (doc'.map (·.1)) := by
  cases h with
  | fields pairs hperm hpairs =>
    refine (hperm.map (·.1)).trans (.of_eq ?_)
    rw [List.map_map, List.map_map]
    exact List.map_congr_left fun pair hp => (hpairs pair hp).key_eq

theorem Reordered.text_mem_iff (h : Reordered doc doc') (key s : String) :
    (key, .text s) ∈ doc ↔ (key, .text s) ∈ doc' := by
  cases h with
  | fields pairs hperm hpairs =>
    rw [hperm.mem_iff, List.mem_map, List.mem_map]
    refine exists_congr fun pair => and_congr_right fun hp => ?_
    have hkey := (hpairs pair hp).key_eq
    have htext := (hpairs pair hp).text_iff s
    rw [Prod.ext_iff, Prod.ext_iff, hkey]
    exact and_congr_right fun _ => htext

theorem Reordered.sameOptions (h : Reordered doc doc') (hnodup : (doc.map (·.1)).Nodup) :
    SameOptions doc doc' := by
  constructor
  · have hnodup' := h.perm_keys.nodup_iff.mp hnodup
    apply Option.ext
    intro s
    rw [optionsText?_eq_some_iff, optionsText?_eq_some_iff, KeyMap.lookup_eq_some_iff hnodup,
      KeyMap.lookup_eq_some_iff hnodup']
    exact h.text_mem_iff _ s
  · rw [Bool.eq_iff_iff, Document.hasKey_iff, Document.hasKey_iff]
    exact h.perm_keys.mem_iff

end Keys

section Items
variable {pairs : List (Value × Value)}

theorem all_reordered (h : ∀ pair ∈ pairs, ReorderedItem pair.1 pair.2) {p : Value → Bool}
    (hp : ∀ doc doc', p (.document doc) = p (.document doc')) :
    (pairs.map (·.1)).all p = (pairs.map (·.2)).all p := by
  induction pairs with
  | nil => rfl
  | cons pair pairs ih =>
    obtain ⟨hpair, hpairs⟩ := List.forall_mem_cons.mp h
    have hfirst : p pair.1 = p pair.2 := by
      generalize pair.1 = item, pair.2 = item' at hpair
      cases hpair with
      | same => rfl
      | filter => exact hp _ _
    rw [List.map_cons, List.map_cons, List.all_cons, List.all_cons, hfirst, ih hpairs]

theorem requireFilters_reordered (key : String)
    (h : ∀ pair ∈ pairs, ReorderedItem pair.1 pair.2) :
    requireFilters key (pairs.map (·.1)) = requireFilters key (pairs.map (·.2)) := by
  unfold requireFilters
  rw [all_reordered h fun _ _ => rfl, List.isEmpty_map, List.isEmpty_map]

end Items

-- One lemma for each evaluator. Filters are judged field by field and operators one by one, in any
-- order; a document is read the same way after it is reordered because it keeps its keys.
mutual

theorem Reordered.compatible_holds [Pattern.Engine] {doc doc' : Document} (h : Reordered doc doc')
    (entity : Document) : Compatible (holds doc entity) (holds doc' entity) := by
  match h with
  | .fields pairs hperm hpairs =>
    rw [holds_eq_allM, holds_eq_allM]
    exact .allM hperm fun pair hp => (hpairs pair hp).compatible_field entity
termination_by structural h

theorem Reordered.compatible_operators [Pattern.Engine] {doc doc' : Document}
    (h : Reordered doc doc') {all all' : Document} (hall : SameOptions all all') (leaves : Leaves) :
    Compatible (operatorsHold all doc leaves) (operatorsHold all' doc' leaves) := by
  match h with
  | .fields pairs hperm hpairs =>
    rw [operatorsHold_eq_allM, operatorsHold_eq_allM]
    exact .allM hperm fun pair hp => (hpairs pair hp).compatible_operator hall leaves
termination_by structural h

theorem ReorderedField.compatible_field [Pattern.Engine] {field field' : String × Value}
    (h : ReorderedField field field') (entity : Document) :
    Compatible (fieldHolds field.1 field.2 entity) (fieldHolds field'.1 field'.2 entity) := by
  match h with
  | .same field => exact .refl _
  | @ReorderedField.document key doc doc' hopens hnodup hdoc =>
    have hops := isOperatorExpression_perm hdoc.perm_keys
    have hcompatible := hdoc.compatible_operators (hdoc.sameOptions hnodup)
    cases hkey : Operator.ofKey? key with
    | none =>
      rw [opens, hkey] at hopens
      simp only [fieldHolds_path hkey, conditionHolds, ← hops, hopens, if_true]
      exact hcompatible _
    | some op =>
      -- no operator that stands in a filter takes a document
      simp only [fieldHolds, hkey]
      exact .of_error _ _
  | @ReorderedField.filters key pairs hop hpairs =>
    obtain ⟨op, hkey, hop⟩ := (Option.any_eq_true _ _).mp hop
    have hholds : Compatible (anyHolds (pairs.map (·.1)) entity)
        (anyHolds (pairs.map (·.2)) entity) := by
      rw [anyHolds_eq_anyM, anyHolds_eq_anyM]
      exact .anyM fun pair hp => (hpairs pair hp).compatible_onFilter fun h => h entity
    have hfails : Compatible (anyFails (pairs.map (·.1)) entity)
        (anyFails (pairs.map (·.2)) entity) := by
      rw [anyFails_eq_anyM, anyFails_eq_anyM]
      exact .anyM fun pair hp => (hpairs pair hp).compatible_onFilter fun h => (h entity).not
    simp only [fieldHolds, hkey, requireFilters_reordered key hpairs]
    cases requireFilters key (pairs.map (·.2)) with
    | error e => cases op <;> exact .of_error _ _
    | ok u =>
      cases op with
      | and => exact hfails.not
      | or => exact hholds
      | nor => exact hholds.not
      | _ => exact .of_error _ _
termination_by structural h

theorem ReorderedField.compatible_operator [Pattern.Engine] {field field' : String × Value}
    (h : ReorderedField field field') {all all' : Document} (hall : SameOptions all all')
    (leaves : Leaves) :
    Compatible (operatorHolds all field.1 field.2 leaves)
      (operatorHolds all' field'.1 field'.2 leaves) := by
  match h with
  | .same field =>
    rw [hall.operatorHolds_eq]
    exact .refl _
  | @ReorderedField.document key doc doc' hopens hnodup hdoc =>
    have hops := isOperatorExpression_perm hdoc.perm_keys
    have hoperators := hdoc.compatible_operators (hdoc.sameOptions hnodup)
    have hfilter := hdoc.compatible_holds
    cases hkey : Operator.ofKey? key with
    | none =>
      simp only [operatorHolds, hkey]
      exact .of_error _ _
    | some op =>
      rw [opens, hkey] at hopens
      simp only [operatorHolds, hkey, ← hops]
      cases op with
      | not =>
        dsimp only
        split
        · exact (hoperators leaves).not
        · exact (Compatible.anyM_same fun element _ => hfilter element).not
      | elemMatch =>
        refine .anyM_same fun item _ => ?_
        split
        · exact hoperators [some item]
        · cases item with
          | document element => exact hfilter element
          | _ => exact .refl _
      | _ => cases hopens
  | @ReorderedField.filters key pairs hop hpairs =>
    obtain ⟨op, hkey, hop⟩ := (Option.any_eq_true _ _).mp hop
    have herror : operatorHolds all key (.array (pairs.map (·.1))) leaves =
        .error (.unsupportedOperator key) := by
      rw [operatorHolds, hkey]
      cases op <;> first | rfl | cases hop
    rw [herror]
    exact .of_error _ _
termination_by structural h

theorem ReorderedItem.compatible_onFilter [Pattern.Engine] {item item' : Value}
    (h : ReorderedItem item item') {evaluate : Document → Except FilterError Bool}
    (hevaluate : ∀ {doc doc' : Document},
      (∀ entity, Compatible (holds doc entity) (holds doc' entity)) →
        Compatible (evaluate doc) (evaluate doc')) :
    Compatible (onFilter evaluate item) (onFilter evaluate item') := by
  match h with
  | .same item => exact .refl _
  | .filter hdoc => exact hevaluate hdoc.compatible_holds
termination_by structural h

end

/-- Filters that differ in the order of keys, at any depth, have no two different answers. -/
theorem holds_reordered [Pattern.Engine] {filter filter' entity : Document} {b b' : Bool}
    (h : Reordered filter filter') (hb : holds filter entity = .ok b)
    (hb' : holds filter' entity = .ok b') : b = b' := by
  have hcompatible := h.compatible_holds entity
  rw [hb, hb'] at hcompatible
  exact hcompatible.eq

theorem holds_reordered_nested :
    let onTitle : Document := [("$options", .text "i"), ("$regex", .text "^s")]
    let onTitle' : Document := [("$regex", .text "^s"), ("$options", .text "i")]
    let onRank : Document := [("$not", .document [("$gte", .int32 3), ("$exists", .bool true)])]
    let onRank' : Document := [("$not", .document [("$exists", .bool true), ("$gte", .int32 3)])]
    let filter : Document :=
      [("$or", .array [.document [("title", .document onTitle), ("n", .null)]]),
        ("rank", .document onRank)]
    let filter' : Document :=
      [("rank", .document onRank'),
        ("$or", .array [.document [("n", .null), ("title", .document onTitle')]])]
    let entity : Document := [("title", .text "Sir"), ("rank", .int32 2)]
    Reordered filter filter' ∧ holds filter entity = .ok true ∧ holds filter' entity = .ok true ∧
      true = true := by
  intro onTitle onTitle' onRank onRank' filter filter' entity
  have htitle : ReorderedField ("title", .document onTitle) ("title", .document onTitle') :=
    .document (by decide) (by decide) (.of_perm (.swap _ _ _))
  have hrank : ReorderedField ("rank", .document onRank) ("rank", .document onRank') :=
    .document (by decide) (by decide)
      (.cons (.document (by decide) (by decide) (.of_perm (.swap _ _ _))) .nil)
  have hitem : ReorderedItem (.document [("title", .document onTitle), ("n", .null)])
      (.document [("n", .null), ("title", .document onTitle')]) :=
    .filter (.after_perm (.swap _ _ _) (.cons (.same _) (.cons htitle .nil)))
  have hor : ReorderedField
      ("$or", .array [.document [("title", .document onTitle), ("n", .null)]])
      ("$or", .array [.document [("n", .null), ("title", .document onTitle')]]) :=
    .filters [(_, _)] (by decide) (List.forall_mem_singleton.mpr hitem)
  have hfilter : Reordered filter filter' :=
    .after_perm (.swap _ _ _) (.cons hrank (.cons hor .nil))
  have hb : holds filter entity = .ok true := by decide +kernel
  have hb' : holds filter' entity = .ok true := by decide +kernel
  exact ⟨hfilter, hb, hb', holds_reordered hfilter hb hb'⟩

end Filter
end AccessRules
