import AccessRules.Pattern.Syntax
import AccessRules.Proofs.Idempotence
import AccessRules.Proofs.Narrowing

/-! Conditions on an embedded relation and their negation. The conditions are resolved, and the
negation is put on the elements as it was written. Where resolution leaves the conditions as they
are, no entity satisfies both. -/
namespace AccessRules

def Value.isDocument : Value → Bool
  | .document _ => true
  | _ => false

/-- The fields of a filter without the documents beside operator keys, which are refused. -/
def Document.conditions (filter : Document) : Document :=
  filter.filter fun field => !(Operator.isToken field.1 && field.2.isDocument)

namespace Tree
variable {tree tree' : Tree} {head : String}

theorem contribution_of_isToken (hh : Operator.isToken head = false) {entry : String × Condition}
    (ht : Operator.isToken entry.1 = true) : contribution head entry = none := by
  have hs : splitKey entry.1 = none := by
    unfold splitKey
    exact if_pos ht
  have hne : entry.1 ≠ head := by
    rintro rfl
    simp [ht] at hh
  simp [contribution, hs, hne]

theorem isToken_of_mem_heads (h : tree.Ordered)
    (hn : ∀ entry ∈ tree, entry.2.isNested = true → Operator.isToken entry.1 = false)
    {below : Tree} (hb : (head, below) ∈ tree.split.heads) : Operator.isToken head = false := by
  have hsome : (tree.under head).isSome = true := by
    rw [(mem_split_heads h).mp hb]
    rfl
  obtain ⟨entry, he, c, hc⟩ := isSome_under.mp hsome
  unfold contribution at hc
  split at hc
  · next first tail hs =>
    split at hc
    · next heq => exact heq ▸ (splitKey_eq_some_iff.mp hs).2.2
    · cases hc
  · split at hc
    · next heq => exact heq.1 ▸ hn entry he heq.2
    · cases hc

theorem split_subset (h : tree.Ordered) (h' : tree'.Ordered) (hsub : ∀ entry ∈ tree, entry ∈ tree')
    (hmore : ∀ entry ∈ tree', Operator.isToken entry.1 = false → entry ∈ tree)
    (hn : ∀ entry ∈ tree, entry.2.isNested = true → Operator.isToken entry.1 = false) :
    tree.split.direct ⊆ tree'.split.direct ∧ tree.split.heads ⊆ tree'.split.heads := by
  constructor
  · intro entry he
    obtain ⟨hmem, hrest⟩ := (mem_split_direct h.sorted).mp he
    exact (mem_split_direct h'.sorted).mpr ⟨hsub entry hmem, hrest⟩
  · rintro ⟨head, below⟩ hb
    have hhead := isToken_of_mem_heads h hn hb
    -- both have the same entries on field names, and the heads come from these
    have hunder : tree.under head = tree'.under head := by
      refine under_congr h.sorted h'.sorted fun {entry c} hc => ⟨hsub entry, fun he => ?_⟩
      refine hmore entry he (Bool.eq_false_iff.mpr fun ht => ?_)
      rw [contribution_of_isToken hhead ht] at hc
      cases hc
    rw [mem_split_heads h, hunder] at hb
    exact (mem_split_heads h').mpr hb

end Tree

namespace Document
variable {plain : String → Prop} {filter : Document}

theorem mem_conditions {field : String × Value} :
    field ∈ filter.conditions ↔
      field ∈ filter ∧ (Operator.isToken field.1 = true → field.2.isDocument = false) := by
  rw [conditions, List.mem_filter]
  cases Operator.isToken field.1 <;> simp

theorem outline_conditions (hnodup : (filter.map (·.1)).Nodup) :
    (Tree.ofDocument filter.conditions).outline.direct ⊆ (Tree.ofDocument filter).outline.direct ∧
      (Tree.ofDocument filter.conditions).outline.heads ⊆
        (Tree.ofDocument filter).outline.heads := by
  have hkeys : (filter.conditions.map (·.1)).Nodup :=
    hnodup.sublist (List.filter_sublist.map _)
  have hsub : ∀ entry ∈ Tree.ofDocument filter.conditions, entry ∈ Tree.ofDocument filter := by
    intro entry he
    obtain ⟨x, hx, heq⟩ := (Tree.mem_ofDocument hkeys).mp he
    exact (Tree.mem_ofDocument hnodup).mpr ⟨x, (mem_conditions.mp hx).1, heq⟩
  have hmore : ∀ entry ∈ Tree.ofDocument filter, Operator.isToken entry.1 = false →
      entry ∈ Tree.ofDocument filter.conditions := by
    intro entry he ht
    obtain ⟨x, hx, rfl⟩ := (Tree.mem_ofDocument hnodup).mp he
    refine (Tree.mem_ofDocument hkeys).mpr ⟨x, mem_conditions.mpr ⟨hx, fun htoken => ?_⟩, rfl⟩
    rw [ht] at htoken
    cases htoken
  have hnested : ∀ entry ∈ Tree.ofDocument filter.conditions, entry.2.isNested = true →
      Operator.isToken entry.1 = false := by
    intro entry he hn
    obtain ⟨x, hx, rfl⟩ := (Tree.mem_ofDocument hkeys).mp he
    by_contra htoken
    have hvalue := (mem_conditions.mp hx).2 (by simpa using htoken)
    cases hv : x.2 with
    | document doc => simp [hv, Value.isDocument] at hvalue
    | _ => simp [hv, Condition.ofValue, Condition.isNested] at hn
  obtain ⟨hdirect, hheads⟩ := Tree.split_subset (Tree.ordered_ofDocument _)
    (Tree.ordered_ofDocument filter) hsub hmore hnested
  rw [Tree.outline_eq, Tree.outline_eq (Tree.ofDocument filter)]
  exact ⟨hdirect, List.map_subset _ hheads⟩

end Document

theorem Resolves.leaves_subset {schema : Schema} {store : Store} {owner : Option EntityType}
    {o o' : Outline} {below : List Clause} (h : Resolves schema store owner o.heads below)
    (hdirect : o'.direct ⊆ o.direct) (hheads : o'.heads ⊆ o.heads)
    (hplain : ∀ head ∈ o'.heads, schema.head owner head.1 = .plain) :
    o'.leaves ⊆ Clause.pairsOf (o.ownClauses ++ below) := by
  rw [Clause.pairsOf_append, Outline.pairsOf_ownClauses, Outline.leaves_eq]
  refine List.append_subset.mpr ⟨?_, fun leaf hleaf => ?_⟩
  · exact List.Subset.trans (List.map_subset _ hdirect) (List.subset_append_left _ _)
  · obtain ⟨⟨field, inside⟩, hh, hleaf⟩ := Outline.mem_leavesBelow.mp hleaf
    obtain ⟨clause, hc, hclause⟩ := h.clause_of_mem (hheads hh)
    have hcases := hclause.single_cases
    rw [hplain _ hh] at hcases
    rw [← hcases] at hleaf
    exact List.mem_append_right _ (Clause.mem_pairsOf.mpr ⟨clause, hc, hleaf⟩)

/-- The filter by which a field holds no element that another filter accepts. -/
def Filter.excluding (filter : Document) : Document := [(Operator.not.token, .document filter)]

section Resolved
variable {schema : Schema} {store : Store} {type : EntityType} {field : String}
  {relation : Relation} {filter : Document} {clauses : List Clause}

theorem resolve_elements (hrelation : schema.relation? type field = some relation)
    (hkind : relation.kind = .embedded) (hs : splitKey field = none)
    (hfilter : isOperatorExpression filter = false)
    (h : (resolve schema store type (Tree.ofDocument [(field, .document filter)])).result =
      .ok clauses) :
    ∃ target below, relation.target = some target ∧
      Resolves schema store (some target) (Tree.ofDocument filter).outline.heads below ∧
      clauses =
        [.embedded field target ((Tree.ofDocument filter).outline.ownClauses ++ below)] := by
  have htree : Tree.ofDocument [(field, .document filter)] =
      [(field, .nested (Tree.ofDocument filter))] := by
    change [(field, Condition.ofValue (.document filter))] = _
    rw [Condition.ofValue, if_neg (by simp [hfilter])]
    rfl
  rw [resolve, htree, Tree.outline_nested hs (Tree.ordered_ofDocument filter).sorted] at h
  obtain ⟨found, hfound, hclauses⟩ := Outline.resolves_of_ok _ h
  obtain ⟨clause, rfl⟩ : ∃ clause, found = [clause] :=
    List.length_eq_one_iff.mp hfound.forall₂.length_eq.symm
  have hcases := Resolves.single_cases hfound
  cases htarget : relation.target with
  | none =>
    have hhead : schema.head (some type) field = .dangling type := by
      simp [Schema.head, hrelation, htarget]
    rw [hhead] at hcases
    exact hcases.elim
  | some target =>
    have hhead : schema.head (some type) field = .related relation target := by
      simp [Schema.head, hrelation, htarget]
    rw [hhead] at hcases
    simp only [hkind] at hcases
    obtain ⟨below, hbelow, hclause⟩ := hcases
    exact ⟨target, below, rfl, hbelow, by rw [hclauses, hclause]; rfl⟩

theorem resolve_excluding (hs : splitKey field = none) (filter : Document) :
    (resolve schema store type
      (Tree.ofDocument [(field, .document (Filter.excluding filter))])).result =
        .ok [.field field (.operators [(.not, .document filter)])] := by
  have htree : Tree.ofDocument [(field, .document (Filter.excluding filter))] =
      [(field, .operators [(.not, .document filter)])] := by
    change [(field, Condition.ofValue (.document (Filter.excluding filter)))] = _
    rw [Condition.ofValue, Filter.excluding, if_pos (Filter.isOperatorExpression_singleton rfl _)]
    rfl
  rw [resolve, htree, Tree.outline_operators hs, Outline.resolve]
  rfl

end Resolved

section Exclusion
variable {schema : Schema} {store : Store} {type : EntityType} {field : String}
  {relation : Relation} {filter entity : Document} {clauses negated : List Clause}

theorem element_not_accepted [Pattern.Engine] (hk : FieldName field)
    (hfilter : isOperatorExpression filter = false)
    (h : Filter.holds [(field, .document (Filter.excluding filter))] entity = .ok true)
    {items : List Value} (hitems : entity.lookup field = some (.array items)) {element : Document}
    (he : .document element ∈ items) : Filter.holds filter element = .ok false := by
  have hop : Operator.ofKey? Operator.not.token = some .not := rfl
  rw [Filter.holds_singleton, Filter.excluding, Filter.fieldHolds_operator hk.noToken rfl,
    Path.leaves_field hk.noDot, hitems, Filter.operatorHolds, hop] at h
  simp only [hfilter, Bool.false_eq_true, if_false] at h
  have hmem : element ∈ Path.documents [some (.array items)] := by
    refine List.mem_filterMap.mpr ⟨some (.document element), ?_, rfl⟩
    simpa [Path.expanded, Path.spread] using he
  cases hany : (Path.documents [some (.array items)]).anyM fun element =>
      Filter.holds filter element with
  | error e =>
    rw [hany] at h
    cases h
  | ok b =>
    cases b with
    | true =>
      rw [hany] at h
      cases h
    | false => exact anyM_eq_false_iff.mp hany element hmem

theorem exists_element [Pattern.Engine] {inside : List Clause}
    (hops : isOperatorExpression (Clause.pairsOf inside) = false) (hs : splitKey field = none)
    (h : Filter.holds (Clause.elementFilter field inside) entity = .ok true) :
    FieldName field ∧ ∃ items element, entity.lookup field = some (.array items) ∧
      .document element ∈ items ∧ Filter.holds (Clause.pairsOf inside) element = .ok true := by
  rw [Clause.elementFilter, Filter.holds_singleton] at h
  have ht : Operator.isToken field = false := by
    by_contra htoken
    exact ne_ok_of_error (Filter.fieldHolds_misplaced (by simpa using htoken) _ entity) true h
  have hk : FieldName field := .of_undivided hs ht
  rw [Filter.fieldHolds_elemMatch hk] at h
  obtain ⟨item, hi, hitem⟩ := exists_of_anyM_eq_true h
  rw [Path.elements_field] at hi
  split at hi
  · next items hitems =>
    have hdecided := Clause.elementHolds_eq_ok hops hitem
    cases item with
    | document element => exact ⟨hk, items, element, hitems, hi, hdecided⟩
    | _ => cases hdecided
  · cases hi

theorem conditions_subset {owner : Option EntityType} {below : List Clause}
    (hnodup : (filter.map (·.1)).Nodup)
    (hsettled : Document.Settled (schema.head owner · = .plain) filter.conditions)
    (h : Resolves schema store owner (Tree.ofDocument filter).outline.heads below) :
    filter.conditions ⊆
      Clause.pairsOf ((Tree.ofDocument filter).outline.ownClauses ++ below) := by
  obtain ⟨hdirect, hheads⟩ := Document.outline_conditions hnodup
  intro pair hp
  exact h.leaves_subset hdirect hheads hsettled.plain_of_mem_heads
    (hsettled.perm_leaves.mem_iff.mpr hp)

theorem not_false_of_subset [Pattern.Engine] {pairs element : Document}
    (hsub : filter.conditions ⊆ pairs)
    (h : Filter.holds pairs element = .ok true) : Filter.holds filter element ≠ .ok false := by
  rw [Filter.holds_eq_allM]
  intro hfalse
  obtain ⟨⟨key, value⟩, hp, hnot⟩ := exists_of_allM_eq_false hfalse
  by_cases hc : (key, value) ∈ filter.conditions
  · rw [Filter.holds_iff_forall.mp h _ (hsub hc)] at hnot
    cases hnot
  · have hrefused : Operator.isToken key = true ∧ value.isDocument = true := by
      simpa [Document.mem_conditions, hp] using hc
    cases value with
    | document doc =>
      exact ne_ok_of_error (Filter.fieldHolds_misplaced hrefused.1 doc element) false hnot
    | _ => cases hrefused.2

/-- No entity satisfies conditions on the elements of a relation and excludes the elements that they
accept, if the conditions are resolved to themselves. -/
theorem elements_not_excluded [Pattern.Engine]
    (hrelation : schema.relation? type field = some relation)
    (hkind : relation.kind = .embedded) (hs : splitKey field = none)
    (hnodup : (filter.map (·.1)).Nodup) (hfield : ∃ x ∈ filter, Operator.isToken x.1 = false)
    (hsettled : Document.Settled (schema.head relation.target · = .plain) filter.conditions)
    (h : (resolve schema store type (Tree.ofDocument [(field, .document filter)])).result =
      .ok clauses)
    (h' : (resolve schema store type
      (Tree.ofDocument [(field, .document (Filter.excluding filter))])).result = .ok negated) :
    ¬(Filter.holds (Clause.selector clauses).document entity = .ok true ∧
      Filter.holds (Clause.selector negated).document entity = .ok true) := by
  rintro ⟨hholds, hexcluded⟩
  obtain ⟨x, hx, ht⟩ := hfield
  have hfilter : isOperatorExpression filter = false := isOperatorExpression_eq_false hx ht
  obtain ⟨target, below, htarget, hbelow, rfl⟩ := resolve_elements hrelation hkind hs hfilter h
  rw [htarget] at hsettled
  have hpairs : filter.conditions ⊆
      Clause.pairsOf ((Tree.ofDocument filter).outline.ownClauses ++ below) :=
    conditions_subset hnodup hsettled hbelow
  have hops : isOperatorExpression
      (Clause.pairsOf ((Tree.ofDocument filter).outline.ownClauses ++ below)) = false :=
    isOperatorExpression_eq_false (hpairs (Document.mem_conditions.mpr ⟨hx, by simp [ht]⟩)) ht
  rw [Clause.holds_selector] at hholds hexcluded
  rw [Clause.pairsOf, Clause.pairsOf, List.append_nil, Clause.pairs_embedded] at hholds
  obtain ⟨hk, items, element, hitems, he, helement⟩ := exists_element hops hs hholds
  rw [resolve_excluding hs] at h'
  cases h'
  exact not_false_of_subset hpairs helement
    (element_not_accepted hk hfilter hexcluded hitems he)

theorem elements_not_excluded_post :
    let schema : Schema := ⟨[("Post", ⟨[("tags", ⟨.embedded, some ⟨"Tag"⟩, none⟩)], []⟩)]⟩
    let relation : Relation := ⟨.embedded, some ⟨"Tag"⟩, none⟩
    let filter : Document := [("m.a", .int32 1), ("n", .document [("$gte", .int32 1)]),
      ("$or", .array [.document [("n", .int32 1)]])]
    let clauses : List Clause := [.embedded "tags" ⟨"Tag"⟩
      [.field "$or" (.list [.document [("n", .int32 1)]]),
        .field "n" (.operators [(.gte, .int32 1)]),
        .path "m" [.field "a" (.scalar (.int32 1))]]]
    let negated : List Clause := [.field "tags" (.operators [(.not, .document filter)])]
    let post : Document :=
      [("tags", .array [.document [("m", .document [("a", .int32 1)]), ("n", .int32 1)]])]
    let store : MemoryStore := .ofEntries []
    schema.relation? ⟨"Post"⟩ "tags" = some relation ∧ relation.kind = .embedded ∧
      splitKey "tags" = none ∧ (filter.map (·.1)).Nodup ∧
      (∃ x ∈ filter, Operator.isToken x.1 = false) ∧
      Document.Settled (schema.head relation.target · = .plain) filter.conditions ∧
      (resolve schema store ⟨"Post"⟩ (Tree.ofDocument [("tags", .document filter)])).result =
        .ok clauses ∧
      (resolve schema store ⟨"Post"⟩
        (Tree.ofDocument [("tags", .document (Filter.excluding filter))])).result = .ok negated ∧
      Filter.holds (Clause.selector clauses).document post = .ok true ∧
      ¬(Filter.holds (Clause.selector clauses).document post = .ok true ∧
        Filter.holds (Clause.selector negated).document post = .ok true) := by
  intro schema relation filter clauses negated post store
  have hpath : splitKey "m.a" = some ("m", "a") := by decide
  have hrelation : schema.relation? ⟨"Post"⟩ "tags" = some relation := rfl
  have hs : splitKey "tags" = none := rfl
  have hnodup : (filter.map (·.1)).Nodup := by decide
  have hfield : ∃ x ∈ filter, Operator.isToken x.1 = false := ⟨_, List.mem_cons_self, rfl⟩
  have hsettled : Document.Settled (schema.head relation.target · = .plain)
      filter.conditions := by
    have hne : ∀ x ∈ filter, x.2 ≠ .document [] :=
      List.forall_mem_cons.mpr ⟨nofun, List.forall_mem_cons.mpr ⟨nofun,
        List.forall_mem_singleton.mpr nofun⟩⟩
    refine ⟨hnodup, ?_, fun x hx he => absurd he (hne x hx), fun x hx he => absurd he (hne x hx),
      ?_⟩
    · exact List.forall_mem_cons.mpr ⟨nofun, List.forall_mem_cons.mpr
        ⟨Value.isWhole_singleton rfl _, List.forall_mem_singleton.mpr nofun⟩⟩
    · refine List.forall_mem_cons.mpr ⟨fun head tail hsplit => ?_, List.forall_mem_cons.mpr
        ⟨nofun, List.forall_mem_singleton.mpr nofun⟩⟩
      cases hpath.symm.trans hsplit
      rfl
  have hresolve : (resolve schema store ⟨"Post"⟩
      (Tree.ofDocument [("tags", .document filter)])).result = .ok clauses := by
    have hsplit : (Tree.ofDocument filter).split =
        ⟨[("m", [("a", .scalar (.int32 1))])], [("$or", .list [.document [("n", .int32 1)]]),
          ("n", .operators [(.gte, .int32 1)])]⟩ := by
      have htree : Tree.ofDocument filter = [("$or", .list [.document [("n", .int32 1)]]),
          ("m.a", .scalar (.int32 1)), ("n", .operators [(.gte, .int32 1)])] := by
        with_unfolding_all rfl
      rw [htree, Tree.split, List.foldl_cons, List.foldl_cons, List.foldl_cons, List.foldl_nil]
      unfold Split.add
      rw [hpath]
      rfl
    change (resolve schema store ⟨"Post"⟩ [("tags", .nested (Tree.ofDocument filter))]).result = _
    rw [resolve, Tree.outline_nested hs (Tree.ordered_ofDocument filter).sorted, Tree.outline_eq,
      hsplit]
    with_unfolding_all rfl
  have hnegated : (resolve schema store ⟨"Post"⟩
      (Tree.ofDocument [("tags", .document (Filter.excluding filter))])).result = .ok negated :=
    resolve_excluding hs filter
  have hholds : Filter.holds (Clause.selector clauses).document post = .ok true := by
    with_unfolding_all rfl
  exact ⟨hrelation, rfl, hs, hnodup, hfield, hsettled, hresolve, hnegated, hholds,
    elements_not_excluded hrelation rfl hs hnodup hfield hsettled hresolve hnegated⟩

def SatisfiesBoth [Pattern.Engine] (schema : Schema) (store : Store) (type : EntityType)
    (field : String) (filter entity : Document) : Prop :=
  ∃ clauses negated,
    (resolve schema store type (Tree.ofDocument [(field, .document filter)])).result = .ok clauses ∧
    (resolve schema store type
      (Tree.ofDocument [(field, .document (Filter.excluding filter))])).result = .ok negated ∧
    Filter.holds (Clause.selector clauses).document entity = .ok true ∧
    Filter.holds (Clause.selector negated).document entity = .ok true

theorem satisfiesBoth_of [Pattern.Engine] {below : Tree} (o : Outline) (clauses : List Clause)
    (hs : splitKey field = none)
    (htree : Tree.ofDocument [(field, .document filter)] = [(field, .nested below)])
    (hbelow : KeyMap.Sorted below) (ho : below.outline = o)
    (h : ((Outline.mk [] [(field, o)]).resolve schema store (some type)).result = .ok clauses)
    (hholds : Filter.holds (Clause.selector clauses).document entity = .ok true)
    (hexcluded : Filter.holds [(field, .document (Filter.excluding filter))] entity = .ok true) :
    SatisfiesBoth schema store type field filter entity := by
  refine ⟨clauses, _, ?_, resolve_excluding hs filter, hholds, hexcluded⟩
  rw [resolve, htree, Tree.outline_nested hs hbelow, ho]
  exact h

/-- Conditions that resolution reads otherwise than they are written can hold together with their
negation: a subdocument that has to equal a document beside the negation, a relation of the
elements, a path through the elements of one, a field that is asked to be empty and is entered, and
a relation whose name is a path. -/
theorem elements_excluded :
    let schema : Schema := ⟨[("Post", ⟨[("a.tags", ⟨.embedded, some ⟨"Tag"⟩, none⟩),
        ("tags", ⟨.embedded, some ⟨"Tag"⟩, none⟩)], []⟩),
      ("Tag", ⟨[("owner", ⟨.foreignKey, some ⟨"Owner"⟩, none⟩),
        ("parts", ⟨.embedded, some ⟨"Part"⟩, none⟩)], []⟩)]⟩
    let store : MemoryStore := .ofEntries [(⟨"Owner"⟩, [("_id", .int32 7), ("name", .text "X")])]
    SatisfiesBoth schema store ⟨"Post"⟩ "tags" [("m", .document [("a", .int32 1)])]
      [("tags", .array [.document [("m", .document [("a", .int32 1), ("b", .int32 2)])]])] ∧
    SatisfiesBoth schema store ⟨"Post"⟩ "tags" [("owner", .document [("name", .text "X")])]
      [("tags", .array [.document [("owner_id", .int32 7)]])] ∧
    SatisfiesBoth schema store ⟨"Post"⟩ "tags" [("parts.n", .document [("$ne", .int32 1)])]
      [("tags", .array [.document [("parts", .array [.document [("n", .int32 1)],
        .document [("n", .int32 2)]])]])] ∧
    SatisfiesBoth schema store ⟨"Post"⟩ "tags" [("m", .document []), ("m.a", .int32 1)]
      [("tags", .array [.document [("m", .document [("a", .int32 1)])]])] ∧
    SatisfiesBoth schema store ⟨"Post"⟩ "a.tags" [("x", .int32 1), ("y", .int32 2)]
      [("a", .document [("tags", .array [.document [("x", .int32 1), ("y", .int32 0)],
        .document [("x", .int32 0), ("y", .int32 2)]])])] := by
  intro schema store
  have hs : splitKey "tags" = none := rfl
  refine ⟨?_, ?_, ?_, ?_, ?_⟩
  · refine satisfiesBoth_of (.mk [] [("m", .mk [("a", .scalar (.int32 1))] [])])
      [.embedded "tags" ⟨"Tag"⟩ [.path "m" [.field "a" (.scalar (.int32 1))]]] hs rfl
      (Tree.ordered_ofDocument _).sorted ?_ ?_ ?_ ?_
    all_goals with_unfolding_all rfl
  · refine satisfiesBoth_of (.mk [] [("owner", .mk [("name", .scalar (.text "X"))] [])])
      [.embedded "tags" ⟨"Tag"⟩ [.foreignKey "owner_id" [.int32 7]]] hs rfl
      (Tree.ordered_ofDocument _).sorted ?_ ?_ ?_ ?_
    all_goals with_unfolding_all rfl
  · have hpath : splitKey "parts.n" = some ("parts", "n") := by decide
    refine satisfiesBoth_of (.mk [] [("parts", .mk [("n", .operators [(.ne, .int32 1)])] [])])
      [.embedded "tags" ⟨"Tag"⟩ [.embedded "parts" ⟨"Part"⟩
        [.field "n" (.operators [(.ne, .int32 1)])]]] hs rfl
      (Tree.ordered_ofDocument _).sorted ?_ ?_ ?_ ?_
    · refine Eq.trans (Tree.outline_divided hpath (.operators [(.ne, .int32 1)])) ?_
      with_unfolding_all rfl
    all_goals with_unfolding_all rfl
  · have hpath : splitKey "m.a" = some ("m", "a") := by decide
    refine satisfiesBoth_of (.mk [] [("m", .mk [("a", .scalar (.int32 1))] [])])
      [.embedded "tags" ⟨"Tag"⟩ [.path "m" [.field "a" (.scalar (.int32 1))]]] hs rfl
      (Tree.ordered_ofDocument _).sorted ?_ ?_ ?_ ?_
    · refine Eq.trans (Tree.outline_beside rfl hpath List.Pairwise.nil (.scalar (.int32 1))) ?_
      with_unfolding_all rfl
    all_goals with_unfolding_all rfl
  · have hpath : splitKey "a.tags" = some ("a", "tags") := by decide
    refine ⟨[.path "a" [.path "tags" [.field "x" (.scalar (.int32 1)),
      .field "y" (.scalar (.int32 2))]]], [.path "a" [.field "tags" (.operators
        [(.not, .document [("x", .int32 1), ("y", .int32 2)])])]], ?_, ?_, ?_, ?_⟩
    · change (resolve schema store ⟨"Post"⟩ [("a.tags", .nested [("x", .scalar (.int32 1)),
        ("y", .scalar (.int32 2))])]).result = _
      rw [resolve, Tree.outline_divided hpath]
      with_unfolding_all rfl
    · change (resolve schema store ⟨"Post"⟩ [("a.tags", .operators
        [(.not, .document [("x", .int32 1), ("y", .int32 2)])])]).result = _
      rw [resolve, Tree.outline_divided hpath]
      with_unfolding_all rfl
    all_goals with_unfolding_all rfl

end Exclusion
end AccessRules
