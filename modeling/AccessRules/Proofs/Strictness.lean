import AccessRules.Pattern.Syntax
import AccessRules.Proofs.Consequence
import AccessRules.Proofs.Narrowing
import AccessRules.Proofs.Subdocument

/-! A check is strict. It asks every element of a field where a filter asks for one. Where there is
an element to ask, and at most one subdocument to walk into, an entity that passes the check is not
turned down by the filter. -/
namespace AccessRules
namespace Clause

mutual

/-- Whether a field beside a clause on elements has an element, or no elements at all, wherever the
clause reaches, and a field that is walked into holds at most one subdocument. -/
def populated : Clause → Document → Bool
  | field _ _, _ => true
  | foreignKey _ _, _ => true
  | embedded key _ inside, entity =>
    match entity.lookup key with
    | none => false
    | some (.atom .null) => false
    | some (.array items) => !items.isEmpty && items.all fun
      | .document element => allPopulated inside element
      | _ => true
    | some _ => true
  | path key inside, entity => (path key inside).unambiguous entity

def allPopulated : List Clause → Document → Bool
  | [], _ => true
  | clause :: rest, entity => clause.populated entity && allPopulated rest entity

end

theorem afterOwn_eq_true_iff [Pattern.Engine] {clauses : List Clause} {entity : Document}
    {rest : Except FilterError Bool} :
    afterOwn clauses entity rest = .ok true ↔
      Filter.holds (pairsOf (clauses.filter isOwn)) entity = .ok true ∧ rest = .ok true := by
  unfold afterOwn ownSelector
  rw [holds_selector]
  cases Filter.holds (pairsOf (clauses.filter isOwn)) entity with
  | error e => exact ⟨nofun, nofun⟩
  | ok b =>
    cases b with
    | false => exact ⟨nofun, nofun⟩
    | true => exact ⟨fun h => ⟨rfl, h⟩, fun h => h.2⟩

section Strict
variable {schema : Schema} {clauses : List Clause} {entity : Document}

theorem entails_pairsOf [Pattern.Engine]
    (h : ∀ clause ∈ clauses, clause.isOwn = false →
      Entails (clause.holds schema entity) (Filter.holds clause.pairs entity)) :
    Entails (satisfies schema clauses entity) (Filter.holds (pairsOf clauses) entity) := by
  intro htrue hfalse
  obtain ⟨hown, hwalk⟩ := afterOwn_eq_true_iff.mp htrue
  rw [holds_pairsOf] at hown hfalse
  rw [allHold_eq_allM] at hwalk
  obtain ⟨clause, hc, hnot⟩ := exists_of_allM_eq_false hfalse
  cases ho : clause.isOwn with
  | true =>
    rw [allM_eq_true_iff.mp hown clause (List.mem_filter.mpr ⟨hc, ho⟩)] at hnot
    cases hnot
  | false => exact h clause hc ho (allM_eq_true_iff.mp hwalk clause hc) hnot

theorem LiteralAll.not_operators [Pattern.Engine] (h : LiteralAll clauses)
    (hown : Filter.holds (pairsOf (clauses.filter isOwn)) entity = .ok true) :
    isOperatorExpression (pairsOf clauses) = false := by
  by_contra hops
  rw [Bool.not_eq_false, isOperatorExpression_iff] at hops
  obtain ⟨pair, hp⟩ := List.exists_mem_of_ne_nil _ hops.1
  have htoken := hops.2 pair hp
  obtain ⟨clause, hc, hpair⟩ := mem_pairsOf.mp hp
  have hliteral := literalAll_iff.mp h clause hc
  rw [isToken_of_mem_pairs hpair] at htoken
  cases clause with
  | field key condition => simp [Clause.key, FieldName.noToken hliteral] at htoken
  | path key inside => simp [Clause.key, hliteral.1.noToken] at htoken
  | embedded key element inside => simp [Clause.key, hliteral.1.noToken] at htoken
  | foreignKey key ids =>
    have hfiltered : foreignKey key ids ∈ clauses.filter isOwn := List.mem_filter.mpr ⟨hc, rfl⟩
    have hholds := Filter.holds_iff_forall.mp hown pair (mem_pairsOf.mpr ⟨_, hfiltered, hpair⟩)
    rw [pairs, List.mem_singleton] at hpair
    rw [hpair] at hholds
    exact ne_ok_of_error (Filter.fieldHolds_misplaced htoken _ entity) true hholds

theorem populated_reading {key : String} {element : EntityType} {inside : List Clause}
    (hp : (embedded key element inside).populated entity = true) :
    ∃ value, entity.lookup key = some value ∧ isVacant (some value) = false ∧
      ∀ items, value = .array items →
        items ≠ [] ∧ ∀ doc, .document doc ∈ items → allPopulated inside doc = true := by
  rw [populated] at hp
  split at hp
  · cases hp
  · cases hp
  · next items hv =>
    rw [Bool.and_eq_true, Bool.not_eq_true', List.isEmpty_eq_false_iff, List.all_eq_true] at hp
    refine ⟨_, hv, ?_, fun found hfound => ?_⟩
    · cases items with
      | nil => exact absurd rfl hp.1
      | cons item rest => rfl
    · cases hfound
      exact ⟨hp.1, fun doc hdoc => hp.2 _ hdoc⟩
  · next value hnull harray hv =>
    refine ⟨value, hv, ?_, fun items hi => (harray items hi).elim⟩
    unfold isVacant
    split <;> simp_all

variable [Pattern.Engine]

theorem entails_embedded {key : String} {element : EntityType} {inside : List Clause}
    (hk : FieldName key) (hl : LiteralAll inside)
    (hp : (embedded key element inside).populated entity = true)
    (inner : ∀ doc, allPopulated inside doc = true →
      Entails (satisfies schema inside doc) (Filter.holds (pairsOf inside) doc)) :
    Entails ((embedded key element inside).holds schema entity)
      (Filter.holds (embedded key element inside).pairs entity) := by
  intro htrue hfalse
  obtain ⟨value, hv, hvacant, hitems⟩ := populated_reading hp
  rw [pairs_embedded, elementFilter, Filter.holds_singleton, Filter.fieldHolds_elemMatch hk,
    Path.elements_field, hv, anyM_eq_false_iff] at hfalse
  rw [Clause.holds, hv, if_neg (by simp [hvacant])] at htrue
  cases value with
  | array items =>
    obtain ⟨hne, hpopulated⟩ := hitems items rfl
    obtain ⟨item, hi⟩ := List.exists_mem_of_ne_nil _ hne
    have hsatisfied := allM_eq_true_iff.mp htrue item hi
    have hnot := hfalse item hi
    cases item with
    | document doc =>
      obtain ⟨hown, -⟩ := afterOwn_eq_true_iff.mp hsatisfied
      have hops := hl.not_operators hown
      exact inner doc (hpopulated doc hi) hsatisfied (elementHolds_eq_ok hops hnot)
    | _ => cases hsatisfied
  | _ => cases htrue

mutual

theorem entails_pairs (schema : Schema) (clause : Clause) (h : clause.Literal) (entity : Document)
    (hp : clause.populated entity = true) (ho : clause.isOwn = false) :
    Entails (clause.holds schema entity) (Filter.holds clause.pairs entity) := by
  match clause with
  | field key condition => cases ho
  | foreignKey key ids => cases ho
  | embedded key element inside =>
    exact entails_embedded h.1 h.2 hp fun doc hdoc =>
      entails_pairsOf (entails_each schema inside h.2 doc hdoc)
  | path key inside =>
    -- one reading is left, so the two evaluations decide the same
    intro htrue hfalse
    rw [populated] at hp
    have hwalk := decides_holds schema (path key inside) h trivial rfl entity hp _ htrue
    have hfilter := decides_met (path key inside) trivial rfl entity _ hfalse
    rw [← hfilter] at hwalk
    cases hwalk

theorem entails_each (schema : Schema) (clauses : List Clause) (h : LiteralAll clauses)
    (entity : Document) (hp : allPopulated clauses entity = true) :
    ∀ clause ∈ clauses, clause.isOwn = false →
      Entails (clause.holds schema entity) (Filter.holds clause.pairs entity) := by
  match clauses with
  | [] => exact nofun
  | clause :: rest =>
    rw [allPopulated, Bool.and_eq_true] at hp
    exact List.forall_mem_cons.mpr ⟨entails_pairs schema clause h.1 entity hp.1,
      entails_each schema rest h.2 entity hp.2⟩

end

end Strict
end Clause

section Strictness
variable {schema : Schema} {store : Store} {type : EntityType} {tree : Tree}
  {clauses : List Clause} {entity : Document}

/-- An entity that passes a check of conditions is not turned down by their filter, if no key is
read as an operator and the entity is populated. -/
theorem check_entails_holds [Pattern.Engine] (htree : tree.literal = true)
    (hresolve : (resolve schema store type tree).result = .ok clauses)
    (hentity : Clause.allPopulated clauses entity = true)
    (hcheck : (check schema store type tree entity).result = .ok true) :
    Filter.holds (Clause.selector clauses).document entity ≠ .ok false := by
  have hliteral := resolve_literalAll htree hresolve
  rw [result_check hresolve, mapError_eq_ok] at hcheck
  rw [Clause.holds_selector]
  exact Clause.entails_pairsOf (Clause.entails_each schema clauses hliteral entity hentity) hcheck

theorem check_entails_holds_post :
    let schema : Schema := ⟨[("Post", ⟨[("tags", ⟨.embedded, some ⟨"Tag"⟩, none⟩)], []⟩),
      ("Tag", ⟨[("owner", ⟨.foreignKey, some ⟨"Owner"⟩, none⟩)], []⟩)]⟩
    let store : MemoryStore := .ofEntries [(⟨"Owner"⟩, [("_id", .int32 7), ("name", .text "X")])]
    let tree : Tree := [("m", .nested [("a", .scalar (.int32 1))]),
      ("tags", .nested [("owner", .nested [("name", .scalar (.text "X"))])])]
    let clauses : List Clause := [.path "m" [.field "a" (.scalar (.int32 1))],
      .embedded "tags" ⟨"Tag"⟩ [.foreignKey "owner_id" [.int32 7]]]
    let post : Document := [("m", .document [("a", .int32 1)]), ("tags", .array [
      .document [("owner_id", .int32 7)],
      .document [("owner_id", .int32 7), ("label", .text "A")]])]
    tree.literal = true ∧ (resolve schema store ⟨"Post"⟩ tree).result = .ok clauses ∧
      Clause.allPopulated clauses post = true ∧
      (check schema store ⟨"Post"⟩ tree post).result = .ok true ∧
      Filter.holds (Clause.selector clauses).document post ≠ .ok false := by
  intro schema store tree clauses post
  have houtline : tree.outline = .mk [] [("m", .mk [("a", .scalar (.int32 1))] []),
      ("tags", .mk [] [("owner", .mk [("name", .scalar (.text "X"))] [])])] := by
    with_unfolding_all rfl
  have htree : tree.literal = true := by
    rw [Tree.literal, houtline]
    rfl
  have hresolve : (resolve schema store ⟨"Post"⟩ tree).result = .ok clauses := by
    with_unfolding_all rfl
  have hpost : Clause.allPopulated clauses post = true := by rfl
  have hcheck : (check schema store ⟨"Post"⟩ tree post).result = .ok true := by
    rw [result_check hresolve]
    rfl
  exact ⟨htree, hresolve, hpost, hcheck, check_entails_holds htree hresolve hpost hcheck⟩

/-- Below a divided key, a segment that starts like an operator combines filters for a check and is
a path for a filter; and a relation that is named like an operator is entered by a check, and
compared with elements by a filter. -/
theorem check_holds_lenient :
    let schema : Schema := ⟨[("Post", ⟨[("tags", ⟨.embedded, some ⟨"Tag"⟩, none⟩)], []⟩),
      ("Tag", ⟨[("$eq", ⟨.embedded, some ⟨"Part"⟩, none⟩)], []⟩)]⟩
    let store : MemoryStore := .ofEntries []
    let onPath : Tree := [("m.$or", .list [.document [("a", .int32 1)]])]
    let onRelation : Tree := [("tags.$eq", .nested [("x", .scalar (.int32 1))])]
    let post : Document := [("m", .document [("a", .int32 1)]),
      ("tags", .array [.document [("$eq", .array [.document [("x", .int32 1)]])]])]
    (∃ clauses, (∀ entry ∈ onPath, Operator.isToken entry.1 = false) ∧
      (resolve schema store ⟨"Post"⟩ onPath).result = .ok clauses ∧
      Clause.allPopulated clauses post = true ∧
      (check schema store ⟨"Post"⟩ onPath post).result = .ok true ∧
      Filter.holds (Clause.selector clauses).document post = .ok false) ∧
    ∃ clauses, (∀ entry ∈ onRelation, Operator.isToken entry.1 = false) ∧
      (resolve schema store ⟨"Post"⟩ onRelation).result = .ok clauses ∧
      Clause.allPopulated clauses post = true ∧
      (check schema store ⟨"Post"⟩ onRelation post).result = .ok true ∧
      Filter.holds (Clause.selector clauses).document post = .ok false := by
  intro schema store onPath onRelation post
  have hpath : (resolve schema store ⟨"Post"⟩ onPath).result =
      .ok [.path "m" [.field "$or" (.list [.document [("a", .int32 1)]])]] := by
    have hkey : splitKey "m.$or" = some ("m", "$or") := by decide
    rw [resolve, Tree.outline_divided hkey]
    with_unfolding_all rfl
  have hrelation : (resolve schema store ⟨"Post"⟩ onRelation).result =
      .ok [.embedded "tags" ⟨"Tag"⟩ [.embedded "$eq" ⟨"Part"⟩
        [.field "x" (.scalar (.int32 1))]]] := by
    have hkey : splitKey "tags.$eq" = some ("tags", "$eq") := by decide
    rw [resolve, Tree.outline_divided hkey]
    with_unfolding_all rfl
  refine ⟨⟨_, by decide, hpath, rfl, ?_, ?_⟩, _, by decide, hrelation, rfl, ?_, ?_⟩
  · rw [result_check hpath]
    rfl
  · with_unfolding_all rfl
  · rw [result_check hrelation]
    rfl
  · with_unfolding_all rfl

end Strictness
end AccessRules
