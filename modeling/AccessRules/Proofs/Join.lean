import AccessRules.Pattern.Syntax
import AccessRules.Proofs.Identity
import AccessRules.Proofs.Meaning

/-! Resolution computes a join. Conditions on related entities become conditions on identifiers that
are collected beforehand; an entity satisfies these exactly if some related entity that it refers to
satisfies the conditions themselves, at any depth. -/
namespace AccessRules

def Filter.equality (key : String) (value : Value) : Document :=
  [(key, .document [(Operator.eq.token, value)])]

namespace Outline

mutual

/-- The conditions in an outline by their dotted paths. That there is nothing below a field is a
condition, too. -/
def leaves : Outline → List (String × Value)
  | .mk direct heads => direct.map (fun entry => (entry.1, entry.2.toValue)) ++ leavesBelow heads

def leavesBelow : List (String × Outline) → List (String × Value)
  | [] => []
  | (field, inside) :: rest =>
    (if inside.isEmpty then [(field, .document [])]
      else inside.leaves.map fun leaf => (field ++ "." ++ leaf.1, leaf.2)) ++ leavesBelow rest

end

section Satisfied
variable (schema : Schema) (store : MemoryStore)

mutual

/-- Whether an entity satisfies conditions, where those on related entities are asked of the related
entities themselves. -/
def satisfied [Pattern.Engine] (owner : Option EntityType) : Outline → Document → Bool
  | .mk direct heads, entity =>
    direct.all (fun entry => Filter.accepts [(entry.1, entry.2.toValue)] entity) &&
      satisfiedBelow owner heads entity

def satisfiedBelow [Pattern.Engine] (owner : Option EntityType) :
    List (String × Outline) → Document → Bool
  | [], _ => true
  | (field, inside) :: rest, entity =>
    (match schema.head owner field with
      | .plain => (leavesBelow [(field, inside)]).all fun leaf => Filter.accepts [leaf] entity
      | .dangling _ => false
      | .related relation target =>
        match relation.kind with
        | .embedded =>
          anyElement (entity.lookup field) fun element => inside.satisfied (some target) element
        | .foreignKey =>
          (store.documents target).any fun other =>
            inside.satisfied (some target) other &&
              (other.lookup Selector.identifierField).any fun id =>
                Filter.accepts (Filter.equality (relation.keyField field) id) entity) &&
      satisfiedBelow owner rest entity

end

/-- Whether the clauses of an outline can be taken for operators: there are some, and all of their
keys look like operators. -/
def operatorsOnly (owner : Option EntityType) (o : Outline) : Bool :=
  !o.isEmpty && o.direct.all (fun entry => Operator.isToken entry.1) &&
    o.heads.all fun head => Operator.isToken (schema.headKey owner head.1)

mutual

/-- Whether no conditions on the elements of an embedded relation can be taken for operators. -/
def legible (owner : Option EntityType) : Outline → Bool
  | .mk _ heads => legibleBelow owner heads

def legibleBelow (owner : Option EntityType) : List (String × Outline) → Bool
  | [] => true
  | (field, inside) :: rest =>
    (match schema.head owner field with
      | .related relation target =>
        (relation.kind == .foreignKey || !inside.operatorsOnly schema (some target)) &&
          inside.legible (some target)
      | _ => true) &&
      legibleBelow owner rest

end

end Satisfied
end Outline

namespace Filter

def listed [Pattern.Engine] (leaves : Leaves) : Value → Except FilterError Bool
  | .atom (.pattern source options) => do
    pure (someMatches leaves (← compilePattern source options))
  | item => pure (someEquals leaves item)

theorem listed_of_noPattern [Pattern.Engine] (leaves : Leaves) {item : Value}
    (h : ∀ source options, item ≠ .atom (.pattern source options)) :
    listed leaves item = .ok (someEquals leaves item) := by
  rw [listed]
  · rfl
  · exact h

theorem someListed_eq_anyM [Pattern.Engine] (leaves : Leaves) (items : List Value) :
    someListed leaves items = items.anyM (listed leaves) := by
  induction items with
  | nil => rfl
  | cons item rest ih =>
    rw [List.anyM_cons, ← ih]
    conv => lhs; unfold someListed
    split
    · next heq => cases heq
    · next source options more heq =>
      cases heq
      rw [listed]
      cases compilePattern source options <;> rfl
    · next first more hnot heq =>
      cases heq
      rw [listed_of_noPattern leaves hnot]
      rfl

theorem someListed_eq [Pattern.Engine] {leaves : Leaves} {items : List Value}
    (h : ∀ item ∈ items, ∀ source options, item ≠ .atom (.pattern source options)) :
    someListed leaves items = .ok (items.any (someEquals leaves)) := by
  rw [someListed_eq_anyM]
  exact anyM_eq_ok fun item hi => listed_of_noPattern leaves (h item hi)

theorem holds_equality [Pattern.Engine] {key : String} (hk : Operator.isToken key = false)
    (value : Value) (entity : Document) :
    holds (equality key value) entity = .ok (someEquals (Path.leaves entity key) value) := by
  have hop : Operator.ofKey? Operator.eq.token = some .eq := rfl
  rw [equality, holds_singleton, fieldHolds_operator hk rfl]
  cases value <;> rw [operatorHolds, hop] <;> rfl

theorem holds_membership_eq_anyM [Pattern.Engine] {key : String} (hk : Operator.isToken key = false)
    (ids : List Value) (entity : Document) :
    holds [(key, .document [(Operator.isIn.token, .array ids)])] entity =
      ids.anyM (listed (Path.leaves entity key)) := by
  have hop : Operator.ofKey? Operator.isIn.token = some .isIn := rfl
  rw [holds_singleton, fieldHolds_operator hk rfl, operatorHolds, hop, ← someListed_eq_anyM]
  rfl

theorem holds_membership [Pattern.Engine] {key : String} (hk : Operator.isToken key = false)
    {ids : List Value}
    (h : ∀ id ∈ ids, ∀ source options, id ≠ .atom (.pattern source options)) (entity : Document) :
    holds [(key, .document [(Operator.isIn.token, .array ids)])] entity =
      .ok (ids.any (someEquals (Path.leaves entity key))) := by
  rw [holds_membership_eq_anyM hk, ← someListed_eq_anyM, someListed_eq h]

theorem accepts_membership [Pattern.Engine] (key : String) {ids : List Value}
    (h : ∀ id ∈ ids, ∀ source options, id ≠ .atom (.pattern source options)) (entity : Document) :
    accepts [(key, .document [(Operator.isIn.token, .array ids)])] entity =
      ids.any fun id => accepts (equality key id) entity := by
  cases hk : Operator.isToken key with
  | true =>
    have hnone : (ids.any fun id => accepts (equality key id) entity) = false := by
      rw [List.any_eq_false]
      intro id _
      rw [equality, accepts_misplaced hk]
      exact Bool.false_ne_true
    rw [accepts_misplaced hk, hnone]
  | false =>
    rw [accepts, holds_membership hk h]
    simp only [accepts, holds_equality hk]

theorem someEquals_of_alike {x y : Value} (h : x.alike y = true) {leaves : Leaves}
    (hy : someEquals leaves y = true) : someEquals leaves x = true := by
  unfold someEquals at *
  obtain ⟨leaf, hleaf, hy⟩ := List.any_eq_true.mp hy
  refine List.any_eq_true.mpr ⟨leaf, hleaf, ?_⟩
  cases leaf with
  | some value => exact Value.agrees_of_alike x y h value hy
  | none =>
    -- only null equals what is missing
    have hnull : y = .null := by
      cases y with
      | atom a =>
        cases a with
        | null => rfl
        | _ => cases hy
      | _ => cases hy
    rw [hnull] at h
    rw [Value.eq_null_of_alike h]

theorem listed_of_alike [Pattern.Engine] {x y : Value} (h : x.alike y = true) {leaves : Leaves}
    (hy : listed leaves y = .ok true) : listed leaves x = .ok true := by
  rcases Value.eq_or_noPattern_of_alike h with rfl | hnot
  · exact hy
  · rw [listed_of_noPattern leaves fun s o => (hnot s o).1]
    rw [listed_of_noPattern leaves fun s o => (hnot s o).2, Except.ok.injEq] at hy
    rw [someEquals_of_alike h hy]

theorem accepts_equality_of_alike [Pattern.Engine] {key : String} {x y : Value}
    (h : x.alike y = true) {entity : Document} (hy : accepts (equality key y) entity = true) :
    accepts (equality key x) entity = true := by
  cases hk : Operator.isToken key with
  | true =>
    rw [equality, accepts_misplaced hk] at hy
    cases hy
  | false =>
    rw [accepts, holds_equality hk] at *
    exact someEquals_of_alike h hy

end Filter

namespace MemoryStore

def ids (store : MemoryStore) (type : EntityType) : List Value :=
  (store.documents type).filterMap (·.lookup Selector.identifierField)

/-- No identifier is a pattern, and those of one type that are identical have the keys of their
documents in the same order. -/
structure SettledIds (store : MemoryStore) : Prop where
  noPattern : ∀ type, ∀ id ∈ store.ids type, ∀ source options, id ≠ .atom (.pattern source options)
  ordered : ∀ type, ∀ x ∈ store.ids type, ∀ y ∈ store.ids type,
    x.identical y = true → x.alike y = true

/-- Identical identifiers of one type have the keys of their documents in the same order. -/
def OrderedIds (store : MemoryStore) : Prop :=
  ∀ type, ∀ x ∈ store.ids type, ∀ y ∈ store.ids type, x.identical y = true → x.alike y = true

variable {store : MemoryStore} {type : EntityType} {sel : Selector} {found : List Value}

theorem identifiers_eq [Pattern.Engine] (h : store.identifiers type sel = .ok found) :
    found = distinct (((store.documents type).filter (Filter.accepts sel.document)).filterMap
        (·.lookup Selector.identifierField)) ∧
      ∀ doc ∈ store.documents type,
        Filter.holds sel.document doc = .ok (Filter.accepts sel.document doc) := by
  unfold identifiers at h
  cases hdocs : store.select type sel with
  | error e =>
    rw [hdocs] at h
    cases h
  | ok docs =>
    rw [hdocs] at h
    cases h
    obtain ⟨hfound, hall⟩ := accepted_eq hdocs
    exact ⟨by rw [hfound], hall⟩

theorem mem_ids_of_mem_filterMap {p : Document → Bool} {id : Value}
    (h : id ∈ ((store.documents type).filter p).filterMap (·.lookup Selector.identifierField)) :
    id ∈ store.ids type := by
  obtain ⟨doc, hdoc, hlookup⟩ := List.mem_filterMap.mp h
  exact List.mem_filterMap.mpr ⟨doc, (List.mem_filter.mp hdoc).1, hlookup⟩

theorem any_identifiers [Pattern.Engine] (hids : store.OrderedIds)
    (h : store.identifiers type sel = .ok found)
    {p : Value → Bool} (hp : ∀ x y, x.alike y = true → p y = true → p x = true) :
    found.any p = (store.documents type).any fun other =>
      Filter.accepts sel.document other && (other.lookup Selector.identifierField).any p := by
  rw [(identifiers_eq h).1, any_distinct fun x hx y hy hxy =>
    hp x y (hids type x (mem_ids_of_mem_filterMap hx) y (mem_ids_of_mem_filterMap hy) hxy),
    List.any_filterMap, List.any_filter]
  refine congrArg (List.any _) (funext fun other => ?_)
  cases other.lookup Selector.identifierField <;> rfl

theorem noPattern_of_identifiers [Pattern.Engine] (hids : store.SettledIds)
    (h : store.identifiers type sel = .ok found) :
    ∀ id ∈ found, ∀ source options, id ≠ .atom (.pattern source options) := by
  intro id hid
  rw [(identifiers_eq h).1] at hid
  exact hids.noPattern type id (mem_ids_of_mem_filterMap (mem_of_mem_distinct hid))

end MemoryStore

namespace Outline
variable {schema : Schema} {store : MemoryStore} {owner : Option EntityType}

theorem leaves_eq (o : Outline) :
    o.leaves = o.direct.map (fun entry => (entry.1, entry.2.toValue)) ++ leavesBelow o.heads := by
  obtain ⟨direct, heads⟩ := o
  rw [leaves]
  rfl

theorem leavesBelow_eq_flatMap (heads : List (String × Outline)) :
    leavesBelow heads = heads.flatMap fun head =>
      if head.2.isEmpty then [(head.1, .document [])]
      else head.2.leaves.map fun leaf => (head.1 ++ "." ++ leaf.1, leaf.2) := by
  induction heads with
  | nil => rw [leavesBelow, List.flatMap_nil]
  | cons head rest ih => rw [leavesBelow, List.flatMap_cons, ih]

theorem satisfied_eq [Pattern.Engine] (o : Outline) (entity : Document) :
    o.satisfied schema store owner entity =
      (o.direct.all (fun entry => Filter.accepts [(entry.1, entry.2.toValue)] entity) &&
        satisfiedBelow schema store owner o.heads entity) := by
  obtain ⟨direct, heads⟩ := o
  rw [satisfied]
  rfl

theorem heads_legible {o : Outline} (hl : o.legible schema owner = true) :
    legibleBelow schema owner o.heads = true := by
  obtain ⟨direct, heads⟩ := o
  rwa [legible] at hl

@[simp] theorem pairsOf_ownClauses (o : Outline) :
    Clause.pairsOf o.ownClauses = o.direct.map fun entry => (entry.1, entry.2.toValue) := by
  unfold ownClauses
  induction o.direct with
  | nil => rfl
  | cons entry rest ih => rw [List.map_cons, List.map_cons, Clause.pairsOf, ih, Clause.pairs]; rfl

end Outline

namespace Resolves
variable {schema : Schema} {store : Store} {owner : Option EntityType}
  {heads : List (String × Outline)} {clauses : List Clause}

theorem allLegible_append {o : Outline} {below : List Clause}
    (h : Clause.allLegible below = true) : Clause.allLegible (o.ownClauses ++ below) = true := by
  refine Clause.allLegible_iff.mpr fun clause hc => ?_
  rcases List.mem_append.mp hc with hc | hc
  · obtain ⟨entry, -, rfl⟩ := List.mem_map.mp hc
    simp [Clause.legible]
  · exact Clause.allLegible_iff.mp h clause hc

theorem allMet_append [Pattern.Engine] {store : MemoryStore} {o : Outline} {below : List Clause}
    {entity : Document}
    (h : Clause.allMet below entity = Outline.satisfiedBelow schema store owner o.heads entity) :
    Clause.allMet (o.ownClauses ++ below) entity = o.satisfied schema store owner entity := by
  have hown : (o.ownClauses.all fun clause => clause.met entity) =
      o.direct.all fun entry => Filter.accepts [(entry.1, entry.2.toValue)] entity := by
    rw [Outline.ownClauses, List.all_map]
    congr 1
  rw [Outline.satisfied_eq, ← h, ← hown, Clause.allMet_eq_all, Clause.allMet_eq_all,
    List.all_append]

theorem isOperatorExpression_eq {o : Outline} (h : Resolves schema store owner o.heads clauses) :
    isOperatorExpression (Clause.pairsOf (o.ownClauses ++ clauses)) =
      o.operatorsOnly schema owner := by
  have hkeys : (clauses.all fun clause => Operator.isToken clause.key) =
      o.heads.all fun head => Operator.isToken (schema.headKey owner head.1) := by
    have hall := congrArg (List.all · Operator.isToken) h.map_key
    simp only [List.all_map] at hall
    exact hall
  have hown : (o.ownClauses.all fun clause => Operator.isToken clause.key) =
      o.direct.all fun entry => Operator.isToken entry.1 := by
    rw [Outline.ownClauses, List.all_map]
    rfl
  rw [Clause.isOperatorExpression_pairsOf (filledAll_append h.filledAll), List.all_append,
    h.isEmpty_own_append, hkeys, hown, Outline.operatorsOnly, Bool.and_assoc]

theorem allLegible (h : Resolves schema store owner heads clauses)
    (hl : Outline.legibleBelow schema owner heads = true) : Clause.allLegible clauses = true := by
  induction h with
  | nil => rfl
  | empty _ _ _ ih | plain _ _ _ _ _ ih | foreignKey _ _ _ _ _ _ ih =>
    rw [Outline.legibleBelow, Bool.and_eq_true] at hl
    rw [Clause.allLegible, ih hl.2]
    simp [Clause.legible]
  | embedded hhead hkind hbelow _ ihBelow ih =>
    rw [Outline.legibleBelow, hhead, Bool.and_eq_true] at hl
    simp only [hkind, Bool.and_eq_true] at hl
    rw [Clause.allLegible, ih hl.2, Clause.legible, hbelow.isOperatorExpression_eq,
      allLegible_append (ihBelow (Outline.heads_legible hl.1.2))]
    simpa using hl.1.1

theorem pairsOf_eq (h : Resolves schema store none heads clauses) :
    Clause.pairsOf clauses = Outline.leavesBelow heads := by
  generalize ho : (none : Option EntityType) = owner at h
  induction h with
  | nil => rfl
  | empty _ hempty _ ih =>
    rw [Clause.pairsOf, Outline.leavesBelow, if_pos hempty, ih ho, Clause.pairs]
    rfl
  | plain _ hempty _ _ ihBelow ih =>
    rw [Clause.pairsOf, Outline.leavesBelow, if_neg (by simp [hempty]), ih ho, Clause.pairs,
      Clause.pairsOf_append, Outline.pairsOf_ownClauses, ihBelow rfl, Outline.leaves_eq]
  | embedded hhead =>
    subst ho
    cases hhead
  | foreignKey hhead =>
    subst ho
    cases hhead

theorem allMet_eq_satisfied [Pattern.Engine] {store : MemoryStore} (hids : store.SettledIds)
    (h : Resolves schema store owner heads clauses) (hu : Outline.UndividedHeads heads)
    (hl : Outline.legibleBelow schema owner heads = true) (entity : Document) :
    Clause.allMet clauses entity = Outline.satisfiedBelow schema store owner heads entity := by
  induction h generalizing entity with
  | nil => rfl
  | empty hhead hempty _ ih =>
    rw [Outline.legibleBelow, Bool.and_eq_true] at hl
    rw [Clause.allMet, Outline.satisfiedBelow, hhead, ih hu.2.2 hl.2, Clause.met]
    simp [Outline.leavesBelow, hempty, Condition.toValue, Tree.toFields]
  | plain hhead hempty hbelow _ _ ih =>
    rw [Outline.legibleBelow, Bool.and_eq_true] at hl
    rw [Clause.allMet, Outline.satisfiedBelow, hhead, ih hu.2.2 hl.2, Clause.met, Clause.pairs,
      Clause.pairsOf_append, Outline.pairsOf_ownClauses, hbelow.pairsOf_eq, ← Outline.leaves_eq]
    simp [Outline.leavesBelow, hempty]
  | @embedded _ _ inside _ target below _ _ hhead hkind _ _ ihBelow ih =>
    rw [Outline.legibleBelow, hhead, Bool.and_eq_true, Bool.and_eq_true] at hl
    have hinside : ∀ element, Clause.allMet (inside.ownClauses ++ below) element =
        inside.satisfied schema store (some target) element :=
      fun element => allMet_append
        (ihBelow (Outline.heads_undivided hu.2.1) (Outline.heads_legible hl.1.2) element)
    rw [Clause.allMet, Outline.satisfiedBelow, hhead, ih hu.2.2 hl.2, Clause.met]
    simp only [hkind, hinside]
  | @foreignKey _ _ inside _ target below _ _ _ hhead hkind hbelow hstore _ ihBelow ih =>
    rw [Outline.legibleBelow, hhead, Bool.and_eq_true, Bool.and_eq_true] at hl
    have hfound := MemoryStore.toStore_identifiers_eq_ok.mp hstore
    have hinside : ∀ other ∈ store.documents target,
        Filter.accepts (Clause.selector (inside.ownClauses ++ below)).document other =
          inside.satisfied schema store (some target) other := by
      intro other ho
      have hdecides := Clause.decides_allMet (inside.ownClauses ++ below)
        (undividedAll_append (hbelow.undividedAll (Outline.heads_undivided hu.2.1)))
        (allLegible_append (hbelow.allLegible (Outline.heads_legible hl.1.2))) other
      rw [hdecides _ ((MemoryStore.identifiers_eq hfound).2 other ho)]
      exact allMet_append
        (ihBelow (Outline.heads_undivided hu.2.1) (Outline.heads_legible hl.1.2) other)
    rw [Clause.allMet, Outline.satisfiedBelow, hhead, ih hu.2.2 hl.2, Clause.met,
      Filter.accepts_membership _ (MemoryStore.noPattern_of_identifiers hids hfound),
      MemoryStore.any_identifiers hids.ordered hfound fun x y hxy hy =>
        Filter.accepts_equality_of_alike hxy hy]
    simp only [hkind]
    congr 1
    rw [Bool.eq_iff_iff, List.any_eq_true, List.any_eq_true]
    refine exists_congr fun other => and_congr_right fun ho => ?_
    rw [hinside other ho]

end Resolves

def Tree.satisfied [Pattern.Engine] (schema : Schema) (store : MemoryStore) (type : EntityType)
    (tree : Tree) (entity : Document) : Bool :=
  tree.outline.satisfied schema store (some type) entity

section Join
variable {schema : Schema} {store : MemoryStore} {type : EntityType} {tree : Tree}
  {clauses : List Clause}

/-- What conditions resolve to holds of an entity exactly if the entity satisfies the conditions, as
far as it can be evaluated. -/
theorem resolve_decides_satisfied [Pattern.Engine] (hids : store.SettledIds)
    (hl : tree.outline.legible schema (some type) = true)
    (h : (resolve schema store type tree).result = .ok clauses) {entity : Document} {b : Bool}
    (hb : Filter.holds (Clause.document clauses) entity = .ok b) :
    b = tree.satisfied schema store type entity := by
  obtain ⟨below, hbelow, rfl⟩ := Outline.resolves_of_ok _ h
  have hheads := Outline.heads_undivided tree.outline_undivided
  have hlegible := Outline.heads_legible hl
  have hdecides := Clause.decides_allMet _ (resolve_undividedAll h)
    (Resolves.allLegible_append (hbelow.allLegible hlegible)) entity
  rw [hdecides b hb, Tree.satisfied]
  exact Resolves.allMet_append (hbelow.allMet_eq_satisfied hids hheads hlegible entity)

end Join

theorem resolve_decides_satisfied_project :
    let schema : Schema := ⟨[("Project", ⟨[("owner", ⟨.foreignKey, some ⟨"Owner"⟩, none⟩)], []⟩)]⟩
    let store : MemoryStore := .ofEntries [(⟨"Owner"⟩, [("_id", .int32 7), ("name", .text "X")])]
    let tree : Tree := [("owner", .nested [("name", .scalar (.text "X"))])]
    let clauses : List Clause := [.foreignKey "owner_id" [.int32 7]]
    let project : Document := [("_id", .int32 1), ("owner_id", .array [.int32 3, .int32 7])]
    store.SettledIds ∧ tree.outline.legible schema (some ⟨"Project"⟩) = true ∧
      (resolve schema store ⟨"Project"⟩ tree).result = .ok clauses ∧
      Filter.holds (Clause.document clauses) project = .ok true ∧
      true = tree.satisfied schema store ⟨"Project"⟩ project := by
  intro schema store tree clauses project
  have honly : ∀ type, ∀ id ∈ store.ids type, id = .int32 7 := by
    intro type id hid
    obtain ⟨doc, hdoc, hlookup⟩ := List.mem_filterMap.mp hid
    obtain ⟨entry, hentry, rfl⟩ := List.mem_map.mp hdoc
    rw [List.mem_singleton.mp (List.mem_filter.mp hentry).1] at hlookup
    exact (Option.some.inj hlookup).symm
  have hids : store.SettledIds := by
    refine ⟨fun type id hid source options => ?_, fun type x hx y hy _ => ?_⟩
    · rw [honly type id hid]
      exact nofun
    · rw [honly type x hx, honly type y hy]
      rfl
  have hlegible : tree.outline.legible schema (some ⟨"Project"⟩) = true := by
    with_unfolding_all rfl
  have hresolve : (resolve schema store ⟨"Project"⟩ tree).result = .ok clauses := by
    with_unfolding_all rfl
  have hholds : Filter.holds (Clause.document clauses) project = .ok true := rfl
  exact ⟨hids, hlegible, hresolve, hholds,
    resolve_decides_satisfied hids hlegible hresolve hholds⟩

/-- Of two identifiers that differ in the order of their keys only one is collected, so the entity
that refers to the other one is missed; and a foreign key that looks like an operator is taken for
one on elements, so an element that is no document is accepted. -/
theorem resolve_satisfied_differ :
    let projects : Schema :=
      ⟨[("Project", ⟨[("owner", ⟨.foreignKey, some ⟨"Owner"⟩, none⟩)], []⟩)]⟩
    let posts : Schema := ⟨[("Post", ⟨[("tags", ⟨.embedded, some ⟨"Tag"⟩, none⟩)], []⟩),
      ("Tag", ⟨[("owner", ⟨.foreignKey, some ⟨"Owner"⟩, some "$ne"⟩)], []⟩)]⟩
    let store : MemoryStore := .ofEntries [
      (⟨"Owner"⟩, [("_id", .document [("a", .int32 1), ("b", .int32 2)]), ("name", .text "X")]),
      (⟨"Owner"⟩, [("_id", .document [("b", .int32 2), ("a", .int32 1)]), ("name", .text "X")])]
    let noOwners : MemoryStore := .ofEntries []
    let onOwner : Tree := [("owner", .nested [("name", .scalar (.text "X"))])]
    let onTags : Tree := [("tags", .nested [("owner", .nested [("name", .scalar (.text "X"))])])]
    let project : Document := [("owner_id", .document [("b", .int32 2), ("a", .int32 1)])]
    let post : Document := [("tags", .array [.int32 5])]
    (∃ clauses, (resolve projects store ⟨"Project"⟩ onOwner).result = .ok clauses ∧
      Filter.holds (Clause.document clauses) project = .ok false ∧
      onOwner.satisfied projects store ⟨"Project"⟩ project = true) ∧
    ∃ clauses, (resolve posts noOwners ⟨"Post"⟩ onTags).result = .ok clauses ∧
      Filter.holds (Clause.document clauses) post = .ok true ∧
      onTags.satisfied posts noOwners ⟨"Post"⟩ post = false := by
  intro projects posts store noOwners onOwner onTags project post
  refine ⟨⟨[.foreignKey "owner_id" [.document [("a", .int32 1), ("b", .int32 2)]]], ?_, ?_, ?_⟩,
    ⟨[.embedded "tags" ⟨"Tag"⟩ [.foreignKey "$ne" []]], ?_, ?_, ?_⟩⟩
  · with_unfolding_all rfl
  · with_unfolding_all rfl
  · have houtline : onOwner.outline =
        .mk [] [("owner", .mk [("name", .scalar (.text "X"))] [])] := by
      with_unfolding_all rfl
    rw [Tree.satisfied, houtline]
    rfl
  · with_unfolding_all rfl
  · with_unfolding_all rfl
  · with_unfolding_all rfl

end AccessRules
