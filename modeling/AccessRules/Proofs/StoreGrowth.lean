import AccessRules.Pattern.Syntax
import AccessRules.Proofs.Easing
import AccessRules.Proofs.Narrowing
import AccessRules.Proofs.Subdocument

/-! Stores that grow. The identifiers that a foreign key is resolved to are found again when further
documents are stored, since a condition on related entities is on no operator that would turn a
longer list into a stricter one. So what an entity satisfies it does not fail later. -/
namespace AccessRules

namespace MemoryStore
variable {store store' : MemoryStore}

def insertAll (store : MemoryStore) (added : List (EntityType × Document)) : MemoryStore :=
  added.foldl (fun store entry => (store.insert entry.1 entry.2).2) store

theorem within_insert (store : MemoryStore) (type : EntityType) (doc : Document) :
    store.Within (store.insert type doc).2 := by
  intro other
  have happend : ∀ entry, store.documents other ⊆
      documents { store with entries := store.entries ++ [entry] } other := by
    intro entry
    unfold documents
    rw [List.filter_append, List.map_append]
    exact List.subset_append_left _ _
  unfold insert
  split
  · exact happend _
  · exact happend _

theorem within_insertAll (store : MemoryStore) (added : List (EntityType × Document)) :
    store.Within (store.insertAll added) := by
  induction added generalizing store with
  | nil => exact fun type => List.Subset.refl _
  | cons entry rest ih =>
    intro type
    exact List.Subset.trans (store.within_insert entry.1 entry.2 type) (ih _ type)

end MemoryStore

namespace Clause

/-- Clauses of the same shape, with more identifiers in the place of those of foreign keys. -/
inductive Enlarged : List Clause → List Clause → Prop where
  | nil : Enlarged [] []
  | same {clause rest rest'} : Enlarged rest rest' → Enlarged (clause :: rest) (clause :: rest')
  | embedded {key element inside inside' rest rest'} :
    Enlarged inside inside' → Enlarged rest rest' →
    Enlarged (.embedded key element inside :: rest) (.embedded key element inside' :: rest')
  | foreignKey {key ids ids' rest rest'} : IdsWithin ids ids' → Enlarged rest rest' →
    Enlarged (.foreignKey key ids :: rest) (.foreignKey key ids' :: rest')

theorem eased_append [Pattern.Engine] {clauses clauses' : List Clause} (own : List Clause)
    (h : List.Forall₂ Filter.Eased (pairsOf clauses) (pairsOf clauses')) :
    List.Forall₂ Filter.Eased (pairsOf (own ++ clauses)) (pairsOf (own ++ clauses')) := by
  rw [pairsOf_append, pairsOf_append]
  exact List.rel_append (Filter.eased_refl _) h

namespace Enlarged
variable {clauses clauses' : List Clause}

theorem append_left (h : Enlarged clauses clauses') (own : List Clause) :
    Enlarged (own ++ clauses) (own ++ clauses') := by
  induction own with
  | nil => exact h
  | cons clause rest ih => exact .same ih

variable [Pattern.Engine]

theorem eased_own (h : Enlarged clauses clauses') :
    List.Forall₂ Filter.Eased (pairsOf (clauses.filter isOwn))
      (pairsOf (clauses'.filter isOwn)) := by
  induction h with
  | nil => exact .nil
  | @same clause rest rest' _ ih =>
    rw [List.filter_cons, List.filter_cons]
    split
    · exact List.rel_append (Filter.eased_refl _) ih
    · exact ih
  | embedded _ _ _ ih => exact ih
  | foreignKey hids _ ih => exact List.rel_append (eased_foreignKey hids.entails_listed _) ih

theorem entails_afterOwn (h : Enlarged clauses clauses') {entity : Document}
    {rest rest' : Except FilterError Bool} (hrest : Entails rest rest') :
    Entails (afterOwn clauses entity rest) (afterOwn clauses' entity rest') := by
  have hown : Entails (Filter.holds (ownSelector clauses).document entity)
      (Filter.holds (ownSelector clauses').document entity) := by
    rw [ownSelector, ownSelector, holds_selector, holds_selector]
    exact Filter.entails_holds h.eased_own entity
  exact hown.andThen fun _ => hrest

theorem entails_allHold (schema : Schema) (h : Enlarged clauses clauses') (entity : Document) :
    Entails (allHold schema clauses entity) (allHold schema clauses' entity) := by
  induction h generalizing entity with
  | nil => exact .refl _
  | same _ ih =>
    rw [allHold, allHold]
    exact (Entails.refl _).andThen fun _ => ih entity
  | @embedded key element inside inside' _ _ hinside _ ihInside ih =>
    rw [allHold, allHold]
    refine Entails.andThen ?_ fun _ => ih entity
    have hsatisfied : ∀ doc, Entails (afterOwn inside doc (allHold schema inside doc))
        (afterOwn inside' doc (allHold schema inside' doc)) :=
      fun doc => hinside.entails_afterOwn (ihInside doc)
    unfold Clause.holds
    simp only
    split
    · exact hsatisfied _
    · split
      · apply Entails.allM
        intro item _
        split
        · exact hsatisfied _
        · exact .refl _
      · exact .refl _
  | foreignKey _ _ ih =>
    rw [allHold, allHold]
    exact Entails.andThen (.refl _) fun _ => ih entity

theorem entails_satisfies (schema : Schema) (h : Enlarged clauses clauses') (entity : Document) :
    Entails (satisfies schema clauses entity) (satisfies schema clauses' entity) :=
  h.entails_afterOwn (h.entails_allHold schema entity)

end Enlarged
end Clause

namespace Outline
variable (schema : Schema)

mutual

/-- Whether conditions reach through a foreign key, so that what they resolve to depends on the
store. -/
def joins (owner : Option EntityType) : Outline → Bool
  | .mk _ heads => joinsBelow owner heads

def joinsBelow (owner : Option EntityType) : List (String × Outline) → Bool
  | [] => false
  | (field, inside) :: rest =>
    (match schema.head owner field with
      | .related relation target => relation.kind == .foreignKey || inside.joins (some target)
      | _ => false) ||
      joinsBelow owner rest

end

/-- Whether a head stands for what depends on the store, under the key of a rigid operator. -/
def isRigidJoin (owner : Option EntityType) (head : String × Outline) : Bool :=
  Operator.isRigid (schema.headKey owner head.1) && joinsBelow schema owner [head]

mutual

/-- Whether no conditions on the elements of an embedded relation can be taken for operators of
which a rigid one depends on the store. -/
def steady (owner : Option EntityType) : Outline → Bool
  | .mk _ heads => steadyBelow owner heads

def steadyBelow (owner : Option EntityType) : List (String × Outline) → Bool
  | [] => true
  | (field, inside) :: rest =>
    (match schema.head owner field with
      | .related relation target =>
        (relation.kind == .foreignKey || !inside.operatorsOnly schema (some target) ||
            inside.heads.all fun head => !isRigidJoin schema (some target) head) &&
          inside.steady (some target)
      | _ => true) &&
      steadyBelow owner rest

end

variable {schema : Schema}

theorem joins_eq (owner : Option EntityType) (o : Outline) :
    o.joins schema owner = joinsBelow schema owner o.heads := by
  obtain ⟨direct, heads⟩ := o
  rw [joins]
  rfl

theorem steady_eq (owner : Option EntityType) (o : Outline) :
    o.steady schema owner = steadyBelow schema owner o.heads := by
  obtain ⟨direct, heads⟩ := o
  rw [steady]
  rfl

theorem joinsBelow_none (heads : List (String × Outline)) :
    joinsBelow schema none heads = false := by
  induction heads with
  | nil => rfl
  | cons head rest ih =>
    rw [joinsBelow, ih]
    rfl

end Outline

section Twice
variable {schema : Schema} {store store' : Store} {owner : Option EntityType}
  {heads : List (String × Outline)} {clauses clauses' : List Clause}

theorem ResolvesTwice.eq_of_not_joins
    (h : ResolvesTwice schema store store' owner heads clauses clauses')
    (hj : Outline.joinsBelow schema owner heads = false) : clauses = clauses' := by
  induction h with
  | nil => rfl
  | empty hhead _ _ ih =>
    rw [Outline.joinsBelow, Bool.or_eq_false_iff] at hj
    rw [ih hj.2]
  | plain hhead _ _ _ ihBelow ih =>
    rw [Outline.joinsBelow, Bool.or_eq_false_iff] at hj
    rw [ih hj.2, ihBelow (Outline.joinsBelow_none _)]
  | embedded hhead _ _ _ ihBelow ih =>
    rw [Outline.joinsBelow, hhead, Bool.or_eq_false_iff] at hj
    rw [ih hj.2, ihBelow ?_]
    rw [← Outline.joins_eq]
    exact (Bool.or_eq_false_iff.mp hj.1).2
  | foreignKey hhead hkind =>
    simp [Outline.joinsBelow, hhead, hkind] at hj

theorem ResolvesTwice.unmoved
    (h : ResolvesTwice schema store store' owner heads clauses clauses')
    (hr : (heads.all fun head => !Outline.isRigidJoin schema owner head) = true) :
    Filter.Unmoved (Clause.pairsOf clauses) (Clause.pairsOf clauses') := by
  induction h with
  | nil => exact .nil
  | empty _ _ _ ih =>
    rw [List.all_cons, Bool.and_eq_true] at hr
    exact .cons (.inl rfl) (ih hr.2)
  | plain _ _ hbelow _ _ ih =>
    rw [List.all_cons, Bool.and_eq_true] at hr
    rw [hbelow.eq_of_not_joins (Outline.joinsBelow_none _)]
    exact List.rel_append (Filter.Unmoved.refl _) (ih hr.2)
  | embedded hhead hkind hbelow _ _ ih =>
    rw [List.all_cons, Bool.and_eq_true, Bool.not_eq_true', Outline.isRigidJoin,
      Schema.headKey_embedded hhead hkind, Bool.and_eq_false_iff] at hr
    refine .cons ?_ (ih hr.2)
    rcases hr.1 with hrigid | hjoins
    · exact .inr hrigid
    · left
      rw [Outline.joinsBelow, hhead, Bool.or_eq_false_iff, Bool.or_eq_false_iff,
        Outline.joins_eq] at hjoins
      rw [hbelow.eq_of_not_joins hjoins.1.2]
  | foreignKey hhead hkind _ _ _ _ _ ih =>
    rw [List.all_cons, Bool.and_eq_true, Bool.not_eq_true', Outline.isRigidJoin,
      Schema.headKey_foreignKey hhead hkind, Bool.and_eq_false_iff] at hr
    refine .cons (.inr (hr.1.resolve_right ?_)) (ih hr.2)
    simp [Outline.joinsBelow, hhead, hkind]

theorem ResolvesTwice.enlarged [Pattern.Engine] {store store' : MemoryStore}
    (h : ResolvesTwice schema store store' owner heads clauses clauses')
    (hids : store'.OrderedIds) (hwithin : store.Within store')
    (hs : Outline.steadyBelow schema owner heads = true) :
    Clause.Enlarged clauses clauses' ∧
      List.Forall₂ Filter.Eased (Clause.pairsOf clauses) (Clause.pairsOf clauses') := by
  induction h with
  | nil => exact ⟨.nil, .nil⟩
  | empty _ _ _ ih =>
    rw [Outline.steadyBelow, Bool.and_eq_true] at hs
    obtain ⟨henlarged, heased⟩ := ih hs.2
    exact ⟨.same henlarged, .cons (.same _) heased⟩
  | plain _ _ hbelow _ _ ih =>
    rw [Outline.steadyBelow, Bool.and_eq_true] at hs
    obtain ⟨henlarged, heased⟩ := ih hs.2
    rw [hbelow.eq_of_not_joins (Outline.joinsBelow_none _)]
    exact ⟨.same henlarged, List.rel_append (Filter.eased_refl _) heased⟩
  | embedded hhead hkind hbelow _ ihBelow ih =>
    rw [Outline.steadyBelow, hhead, Bool.and_eq_true, Bool.and_eq_true, Outline.steady_eq] at hs
    obtain ⟨henlarged, heased⟩ := ih hs.2
    obtain ⟨henlargedBelow, heasedBelow⟩ := ihBelow hs.1.2
    refine ⟨.embedded (henlargedBelow.append_left _) henlarged,
      List.rel_append (Clause.eased_embedded (fun item => ?_) _ _) heased⟩
    -- on an element only rigid operators matter, and no join is among them
    refine Clause.entails_elementHolds (Clause.eased_append _ heasedBelow) (fun hops => ?_) item
    rw [hbelow.left.isOperatorExpression_eq] at hops
    rw [Clause.pairsOf_append, Clause.pairsOf_append]
    refine List.rel_append (Filter.Unmoved.refl _) (hbelow.unmoved ?_)
    simpa [hkind, hops] using hs.1.1
  | foreignKey hhead _ _ hfound hfound' _ ihBelow ih =>
    rw [Outline.steadyBelow, hhead, Bool.and_eq_true, Bool.and_eq_true, Outline.steady_eq] at hs
    obtain ⟨henlarged, heased⟩ := ih hs.2
    obtain ⟨-, heasedBelow⟩ := ihBelow hs.1.2
    have hwithinIds := MemoryStore.idsWithin_identifiers hids hwithin (fun doc => by
      rw [Clause.holds_selector, Clause.holds_selector]
      exact Filter.entails_holds (Clause.eased_append _ heasedBelow) doc)
      (MemoryStore.toStore_identifiers_eq_ok.mp hfound)
      (MemoryStore.toStore_identifiers_eq_ok.mp hfound')
    exact ⟨.foreignKey hwithinIds henlarged,
      List.rel_append (Clause.eased_foreignKey hwithinIds.entails_listed _) heased⟩

end Twice

section Growth
variable {schema : Schema} {store : MemoryStore} {type : EntityType} {tree : Tree}
  {added : List (EntityType × Document)}

theorem resolve_enlarged [Pattern.Engine] {store' : MemoryStore} {clauses clauses' : List Clause}
    (hids : store'.OrderedIds) (hwithin : store.Within store')
    (hsteady : tree.outline.steady schema (some type) = true)
    (h : (resolve schema store type tree).result = .ok clauses)
    (h' : (resolve schema store' type tree).result = .ok clauses') :
    Clause.Enlarged clauses clauses' ∧
      List.Forall₂ Filter.Eased (Clause.pairsOf clauses) (Clause.pairsOf clauses') := by
  obtain ⟨below, hbelow, rfl⟩ := Outline.resolves_of_ok _ h
  obtain ⟨below', hbelow', rfl⟩ := Outline.resolves_of_ok _ h'
  rw [Outline.steady_eq] at hsteady
  obtain ⟨henlarged, heased⟩ := (hbelow.twice hbelow').enlarged hids hwithin hsteady
  exact ⟨henlarged.append_left _, Clause.eased_append _ heased⟩

/-- Whatever documents are stored later, an entity that satisfies conditions does not fail them, and
neither does it fail their filter; and the clauses that the conditions resolve to stay the same, but
for further identifiers. -/
theorem check_insertAll [Pattern.Engine] (hids : (store.insertAll added).OrderedIds)
    (hsteady : tree.outline.steady schema (some type) = true) (entity : Document) :
    Entails (check schema store type tree entity).result
        (check schema (store.insertAll added) type tree entity).result ∧
      ∀ clauses clauses', (resolve schema store type tree).result = .ok clauses →
        (resolve schema (store.insertAll added) type tree).result = .ok clauses' →
        Clause.Enlarged clauses clauses' ∧
          Entails (Filter.holds (Clause.selector clauses).document entity)
            (Filter.holds (Clause.selector clauses').document entity) := by
  have hwithin := store.within_insertAll added
  constructor
  · intro htrue
    obtain ⟨clauses, hclauses, -⟩ := Run.result_bind_ok htrue
    cases hclauses' : (resolve schema (store.insertAll added) type tree).result with
    | error e =>
      rw [check, Run.result_bind, hclauses']
      exact ne_ok_of_error ⟨_, rfl⟩ false
    | ok clauses' =>
      obtain ⟨henlarged, -⟩ := resolve_enlarged hids hwithin hsteady hclauses hclauses'
      rw [result_check hclauses] at htrue
      rw [result_check hclauses']
      exact (henlarged.entails_satisfies schema entity).mapError _ _ htrue
  · intro clauses clauses' hclauses hclauses'
    obtain ⟨henlarged, heased⟩ := resolve_enlarged hids hwithin hsteady hclauses hclauses'
    refine ⟨henlarged, ?_⟩
    rw [Clause.holds_selector, Clause.holds_selector]
    exact Filter.entails_holds heased entity

theorem check_insertAll_post :
    let schema : Schema := ⟨[("Post", ⟨[("tags", ⟨.embedded, some ⟨"Tag"⟩, none⟩)], []⟩),
      ("Tag", ⟨[("owner", ⟨.foreignKey, some ⟨"Owner"⟩, none⟩)], []⟩)]⟩
    let store : MemoryStore := .ofEntries [(⟨"Owner"⟩, [("_id", .int32 7), ("name", .text "X")])]
    let added : List (EntityType × Document) :=
      [(⟨"Owner"⟩, [("_id", .int32 8), ("name", .text "X")])]
    let tree : Tree := [("tags", .nested [("owner", .nested [("name", .scalar (.text "X"))])])]
    let clauses : List Clause := [.embedded "tags" ⟨"Tag"⟩ [.foreignKey "owner_id" [.int32 7]]]
    let clauses' : List Clause :=
      [.embedded "tags" ⟨"Tag"⟩ [.foreignKey "owner_id" [.int32 7, .int32 8]]]
    let post : Document := [("tags", .array [.document [("owner_id", .int32 7)]])]
    (store.insertAll added).OrderedIds ∧ tree.outline.steady schema (some ⟨"Post"⟩) = true ∧
      (resolve schema store ⟨"Post"⟩ tree).result = .ok clauses ∧
      (resolve schema (store.insertAll added) ⟨"Post"⟩ tree).result = .ok clauses' ∧
      (check schema store ⟨"Post"⟩ tree post).result = .ok true ∧
      (check schema (store.insertAll added) ⟨"Post"⟩ tree post).result ≠ .ok false ∧
      Clause.Enlarged clauses clauses' ∧
      Filter.holds (Clause.selector clauses).document post = .ok true ∧
      Filter.holds (Clause.selector clauses').document post ≠ .ok false := by
  intro schema store added tree clauses clauses' post
  have hids : (store.insertAll added).OrderedIds := MemoryStore.orderedIds_of_atoms <|
    List.forall_mem_cons.mpr ⟨fun id hid => ⟨_, (Option.some.inj hid).symm⟩,
      List.forall_mem_singleton.mpr fun id hid => ⟨_, (Option.some.inj hid).symm⟩⟩
  have houtline : tree.outline =
      .mk [] [("tags", .mk [] [("owner", .mk [("name", .scalar (.text "X"))] [])])] := by
    with_unfolding_all rfl
  have hsteady : tree.outline.steady schema (some ⟨"Post"⟩) = true := by
    rw [houtline]
    decide
  have hresolve : (resolve schema store ⟨"Post"⟩ tree).result = .ok clauses := by
    with_unfolding_all rfl
  have hresolve' : (resolve schema (store.insertAll added) ⟨"Post"⟩ tree).result =
      .ok clauses' := by
    with_unfolding_all rfl
  have hcheck : (check schema store ⟨"Post"⟩ tree post).result = .ok true := by
    rw [result_check hresolve]
    rfl
  have hholds : Filter.holds (Clause.selector clauses).document post = .ok true := by
    with_unfolding_all rfl
  obtain ⟨hlater, hclauses⟩ := check_insertAll hids hsteady post
  obtain ⟨henlarged, hstill⟩ := hclauses clauses clauses' hresolve hresolve'
  exact ⟨hids, hsteady, hresolve, hresolve', hcheck, hlater hcheck, henlarged, hholds,
    hstill hholds⟩

/-- A document that is stored later turns an entity down, where the identifier it adds leaves out an
identical one with other keys first, and where a foreign key is named like the operator that negates
the list of identifiers. -/
theorem insertAll_turns_down :
    (let schema : Schema := ⟨[
        ("Owner", ⟨[("category", ⟨.foreignKey, some ⟨"Category"⟩, none⟩)], []⟩),
        ("Project", ⟨[("owner", ⟨.foreignKey, some ⟨"Owner"⟩, none⟩)], []⟩)]⟩
      let store : MemoryStore := .ofEntries [
        (⟨"Owner"⟩, [("_id", .document [("a", .int32 1), ("b", .int32 2)]),
          ("category_id", .int32 1)]),
        (⟨"Owner"⟩, [("_id", .document [("b", .int32 2), ("a", .int32 1)]),
          ("category_id", .int32 2)]),
        (⟨"Category"⟩, [("_id", .int32 2), ("name", .text "X")])]
      let added : List (EntityType × Document) :=
        [(⟨"Category"⟩, [("_id", .int32 1), ("name", .text "X")])]
      let tree : Tree :=
        [("owner", .nested [("category", .nested [("name", .scalar (.text "X"))])])]
      let project : Document := [("owner_id", .document [("b", .int32 2), ("a", .int32 1)])]
      (check schema store ⟨"Project"⟩ tree project).result = .ok true ∧
        (check schema (store.insertAll added) ⟨"Project"⟩ tree project).result = .ok false) ∧
    let schema : Schema := ⟨[("Post", ⟨[("tags", ⟨.embedded, some ⟨"Tag"⟩, none⟩)], []⟩),
      ("Tag", ⟨[("owner", ⟨.foreignKey, some ⟨"Owner"⟩, some "$not"⟩)], []⟩)]⟩
    let store : MemoryStore := .ofEntries [(⟨"Owner"⟩, [("_id", .int32 7), ("name", .text "X")])]
    let added : List (EntityType × Document) :=
      [(⟨"Owner"⟩, [("_id", .int32 8), ("name", .text "X")])]
    let tree : Tree := [("tags", .nested [("owner", .nested [("name", .scalar (.text "X"))])])]
    let post : Document := [("tags", .array [.int32 8])]
    ∃ clauses clauses', (resolve schema store ⟨"Post"⟩ tree).result = .ok clauses ∧
      (resolve schema (store.insertAll added) ⟨"Post"⟩ tree).result = .ok clauses' ∧
      Filter.holds (Clause.selector clauses).document post = .ok true ∧
      Filter.holds (Clause.selector clauses').document post = .ok false := by
  refine ⟨⟨by with_unfolding_all rfl, by with_unfolding_all rfl⟩,
    [.embedded "tags" ⟨"Tag"⟩ [.foreignKey "$not" [.int32 7]]],
    [.embedded "tags" ⟨"Tag"⟩ [.foreignKey "$not" [.int32 7, .int32 8]]], ?_, ?_, ?_, ?_⟩
  all_goals with_unfolding_all rfl

end Growth
end AccessRules
