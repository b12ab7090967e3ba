import AccessRules.Pattern.Syntax
import AccessRules.Proofs.Agreement
import Mathlib.Tactic.Choose

/-! Checks inside subdocuments. Without arrays, a check that walks into a subdocument finds what a
path that leads there reaches. So the check of conditions and their filter agree, unless a key says
something else to the one than to the other: a key that combines filters, or one with a dot that is
no divided path. -/
namespace AccessRules

mutual

/-- Whether a value is no array and holds none. Paths do not lead into the scope of code. -/
def Value.arrayFree : Value → Bool
  | .array _ => false
  | .document fields => Document.arrayFree fields
  | _ => true

def Document.arrayFree : List (String × Value) → Bool
  | [] => true
  | (_, value) :: rest => value.arrayFree && Document.arrayFree rest

end

theorem Document.arrayFree_of_mem {doc : Document} (h : arrayFree doc = true)
    {field : String × Value} (hf : field ∈ doc) : field.2.arrayFree = true := by
  induction doc with
  | nil => cases hf
  | cons first rest ih =>
    rw [arrayFree, Bool.and_eq_true] at h
    rcases List.mem_cons.mp hf with rfl | hf
    · exact h.1
    · exact ih h.2 hf

namespace Schema
variable {schema : Schema}

def hasEmbedded (schema : Schema) : Bool :=
  schema.entities.any fun entity =>
    entity.2.relations.any fun relation => relation.2.kind == .embedded

theorem kind_of_not_hasEmbedded (h : schema.hasEmbedded = false) {owner : Option EntityType}
    {field : String} {relation : Relation} {target : EntityType}
    (hhead : schema.head owner field = .related relation target) :
    relation.kind ≠ .embedded := by
  obtain ⟨type, -, hr⟩ := relation_of_head hhead
  obtain ⟨entity, hentity, hmem⟩ := exists_entity_of_relation hr
  rw [hasEmbedded, List.any_eq_false] at h
  have hnone := h entity hentity
  rw [List.any_eq_true, not_exists] at hnone
  simpa [hmem] using hnone (field, relation)

end Schema

namespace Filter

def reached [Pattern.Engine] (leaves : Leaves) (condition : Value) : Bool :=
  match conditionHolds leaves condition with
  | .ok b => b
  | .error _ => false

theorem decides_fieldHolds [Pattern.Engine] {key : String} {condition : Value}
    (hc : combines key condition = false) (entity : Document) :
    Decides (fieldHolds key condition entity) (reached (Path.leaves entity key) condition) := by
  cases ht : Operator.isToken key with
  | true =>
    obtain ⟨e, he⟩ := fieldHolds_operatorKey ht hc entity
    rw [he]
    exact Decides.of_error e
  | false =>
    rw [fieldHolds_path (Operator.ofKey?_eq_none ht)]
    intro b hb
    rw [reached, hb]

end Filter

namespace Clause

def reads [Pattern.Engine] (clause : Clause) (entity : Document) : Bool :=
  clause.pairs.all fun pair => Filter.reached (Path.leaves entity pair.1) pair.2

mutual

/-- A clause inside a plain field says the same to a check and as part of a path: no condition is on
an operator that combines filters, and no field that is entered has a dot. -/
def Pathlike : Clause → Prop
  | field key condition => Filter.combines key condition.toValue = false
  | path key inside => '.' ∉ key.toList ∧ PathlikeAll inside
  | _ => False

def PathlikeAll : List Clause → Prop
  | [] => True
  | clause :: rest => clause.Pathlike ∧ PathlikeAll rest

end

@[simp] theorem pathlikeAll_iff {clauses : List Clause} :
    PathlikeAll clauses ↔ ∀ clause ∈ clauses, clause.Pathlike := by
  induction clauses with
  | nil => simp [PathlikeAll]
  | cons clause rest ih => simp [PathlikeAll, ih]

theorem dot_of_mem_path {key : String} {inside : List Clause} {pair : String × Value}
    (h : pair ∈ (path key inside).pairs) : '.' ∈ pair.1.toList := by
  rw [pairs, List.mem_map] at h
  obtain ⟨below, -, rfl⟩ := h
  simp [String.toList_append]

theorem decides_pairs [Pattern.Engine] {clause : Clause}
    (h : ∀ pair ∈ clause.pairs, Filter.combines pair.1 pair.2 = false) (entity : Document) :
    Decides (Filter.holds clause.pairs entity) (clause.reads entity) := by
  rw [Filter.holds_eq_allM]
  exact Decides.allM fun pair hp => Filter.decides_fieldHolds (h pair hp) entity

theorem decides_pairs_path [Pattern.Engine] (key : String) (inside : List Clause)
    (entity : Document) :
    Decides (Filter.holds (path key inside).pairs entity) ((path key inside).reads entity) :=
  decides_pairs (fun pair hp => Filter.combines_of_dot (dot_of_mem_path hp) pair.2) entity

theorem Pathlike.decides_own [Pattern.Engine] {clause : Clause} (h : clause.Pathlike)
    (ho : clause.isOwn = true)
    (entity : Document) : Decides (Filter.holds clause.pairs entity) (clause.reads entity) := by
  cases clause with
  | field key condition =>
    refine decides_pairs (fun pair hp => ?_) entity
    rw [pairs, List.mem_singleton] at hp
    rw [hp]
    exact h
  | path key inside => cases ho
  | embedded key element inside => exact h.elim
  | foreignKey key ids => exact h.elim

theorem reads_path [Pattern.Engine] {key : String} {inside : List Clause} {entity doc : Document}
    (hleaves : ∀ rest, Path.leaves entity (key ++ "." ++ rest) = Path.leaves doc rest) :
    (path key inside).reads entity = inside.all fun clause => clause.reads doc := by
  rw [reads, pairs, List.all_map]
  induction inside with
  | nil => rfl
  | cons clause rest ih =>
    rw [pairsOf, List.all_append, ih, List.all_cons, reads]
    congr 2
    exact funext fun pair => congrArg (Filter.reached · pair.2) (hleaves pair.1)

section Walk
variable (schema : Schema)

mutual

theorem decides_walk [Pattern.Engine] (clause : Clause) (h : clause.Pathlike) (entity : Document)
    (ha : Document.arrayFree entity = true) :
    Decides (clause.holds schema entity) (clause.isOwn || clause.reads entity) := by
  match clause with
  | field key condition => exact Decides.pure_iff.mpr rfl
  | path key inside =>
    have inner : ∀ doc, Document.arrayFree doc = true →
        Decides (afterOwn inside doc (allHold schema inside doc))
          (inside.all fun clause => clause.reads doc) := fun doc hdoc =>
      decides_afterOwn_truth
        (fun clause hc ho => (pathlikeAll_iff.mp h.2 clause hc).decides_own ho doc)
        (decides_walkAll inside h.2 doc hdoc)
    rw [Clause.holds]
    by_cases hpath : isPathOnly inside (entity.lookup key) = true
    · rw [if_pos hpath, holds_document, pairsOf, pairsOf, List.append_nil]
      exact decides_pairs_path key inside entity
    rw [if_neg hpath]
    have hmissing : isVacant (entity.lookup key) = true →
        Decides (afterOwn inside [] (allHold schema inside []))
          ((path key inside).reads entity) := by
      intro hvacant
      rw [reads_path fun rest => by
        rw [Path.leaves_below_vacant h.1 entity rest hvacant, Path.leaves_empty]]
      exact inner [] rfl
    cases hv : entity.lookup key with
    | none => exact hmissing (by rw [hv]; rfl)
    | some value =>
      have hvalue := Document.arrayFree_of_mem ha (KeyMap.mem_of_lookup hv)
      rw [hv] at hpath
      cases value with
      | atom a =>
        cases a with
        | null => exact hmissing (by rw [hv]; rfl)
        | _ => simp [isPathOnly] at hpath
      | document doc =>
        rw [reads_path fun rest => Path.leaves_below_document h.1 entity rest hv]
        exact inner doc hvalue
      | array items => cases hvalue
      | scopedCode source scope => simp [isPathOnly] at hpath

theorem decides_walkAll [Pattern.Engine] (clauses : List Clause) (h : PathlikeAll clauses)
    (entity : Document) (ha : Document.arrayFree entity = true) :
    Decides (allHold schema clauses entity)
      (clauses.all fun clause => clause.isOwn || clause.reads entity) := by
  match clauses with
  | [] => exact Decides.pure_iff.mpr rfl
  | clause :: rest =>
    rw [allHold, List.all_cons]
    exact (decides_walk clause h.1 entity ha).andThen fun _ => decides_walkAll rest h.2 entity ha

end

end Walk

def Divided : Clause → Prop
  | path key inside => Operator.isToken key = false → '.' ∉ key.toList ∧ PathlikeAll inside
  | embedded _ _ _ => False
  | _ => True

theorem Divided.decides_both [Pattern.Engine] {clause : Clause} (h : clause.Divided)
    (hf : clause.Filled)
    (schema : Schema) {entity : Document} (ha : Document.arrayFree entity = true) :
    ∃ truth, Decides (Filter.holds clause.pairs entity) truth ∧
      Decides (clause.holds schema entity) (clause.isOwn || truth) := by
  cases clause with
  | field key condition => exact ⟨_, Filter.decides_accepts _ _, Decides.pure_iff.mpr rfl⟩
  | foreignKey key ids => exact ⟨_, Filter.decides_accepts _ _, Decides.pure_iff.mpr rfl⟩
  | embedded key element inside => exact h.elim
  | path key inside =>
    cases ht : Operator.isToken key with
    | false =>
      exact ⟨_, decides_pairs_path key inside entity,
        decides_walk schema (path key inside) (h ht) entity ha⟩
    | true =>
      -- the filter is refused, so the check decides alone
      obtain ⟨pair, more, hpairs⟩ := List.exists_cons_of_ne_nil (pairs_ne_nil _ hf)
      have hmem : pair ∈ (path key inside).pairs := hpairs ▸ List.mem_cons_self
      obtain ⟨e, he⟩ := Filter.fieldHolds_operatorKey ((isToken_of_mem_pairs hmem).trans ht)
        (Filter.combines_of_dot (dot_of_mem_path hmem) pair.2) entity
      have hrefused : Filter.holds (path key inside).pairs entity = .error e := by
        rw [hpairs, Filter.holds, he]
        rfl
      rw [hrefused]
      cases hwalk : (path key inside).holds schema entity with
      | error e' => exact ⟨true, Decides.of_error e, Decides.of_error e'⟩
      | ok b => exact ⟨b, Decides.of_error e, Decides.ok_iff.mpr rfl⟩

theorem decides_both [Pattern.Engine] {clauses : List Clause}
    (h : ∀ clause ∈ clauses, clause.Divided)
    (hf : FilledAll clauses) (schema : Schema) {entity : Document}
    (ha : Document.arrayFree entity = true) :
    ∃ truth, Decides (satisfies schema clauses entity) truth ∧
      Decides (Filter.holds (document clauses) entity) truth := by
  have hboth := fun clause hc =>
    (h clause hc).decides_both (filledAll_iff.mp hf clause hc) schema ha
  choose! truth hfilter hwalk using hboth
  refine ⟨clauses.all truth, decides_afterOwn_truth (fun clause hc _ => hfilter clause hc) ?_, ?_⟩
  · rw [allHold_eq_allM]
    exact Decides.allM hwalk
  · rw [holds_document, holds_pairsOf]
    exact Decides.allM hfilter

end Clause

namespace Outline

mutual

/-- Whether the keys below a plain field say the same there as in a path: none combines filters, and
none that is entered has a dot. -/
def pathlike : Outline → Bool
  | .mk direct heads =>
    direct.all (fun entry => !Filter.combines entry.1 entry.2.toValue) && pathlikeBelow heads

def pathlikeBelow : List (String × Outline) → Bool
  | [] => true
  | (field, inside) :: rest =>
    decide ('.' ∉ field.toList) && inside.pathlike && pathlikeBelow rest

end

theorem pathlike_eq (o : Outline) :
    o.pathlike = (o.direct.all (fun entry => !Filter.combines entry.1 entry.2.toValue) &&
      pathlikeBelow o.heads) := by
  obtain ⟨direct, heads⟩ := o
  rw [pathlike]
  rfl

end Outline

namespace Resolves
variable {schema : Schema} {store : Store} {owner : Option EntityType}
  {heads : List (String × Outline)} {clauses : List Clause}

theorem pathlikeAll_append {o : Outline} (hp : o.pathlike = true) {below : List Clause}
    (h : Outline.pathlikeBelow o.heads = true → Clause.PathlikeAll below) :
    Clause.PathlikeAll (o.ownClauses ++ below) := by
  rw [Outline.pathlike_eq, Bool.and_eq_true, List.all_eq_true] at hp
  refine Clause.pathlikeAll_iff.mpr fun clause hc => ?_
  rcases List.mem_append.mp hc with hc | hc
  · obtain ⟨entry, he, rfl⟩ := List.mem_map.mp hc
    simpa [Clause.Pathlike] using hp.1 entry he
  · exact Clause.pathlikeAll_iff.mp (h hp.2) clause hc

theorem pathlikeAll (h : Resolves schema store none heads clauses)
    (hp : Outline.pathlikeBelow heads = true) : Clause.PathlikeAll clauses := by
  generalize ho : (none : Option EntityType) = owner at h
  induction h with
  | nil => trivial
  | empty _ _ _ ih =>
    simp only [Outline.pathlikeBelow, Bool.and_eq_true] at hp
    exact ⟨rfl, ih hp.2 ho⟩
  | plain _ _ _ _ ihBelow ih =>
    simp only [Outline.pathlikeBelow, Bool.and_eq_true, decide_eq_true_eq] at hp
    exact ⟨⟨hp.1.1, pathlikeAll_append hp.1.2 fun hbelow => ihBelow hbelow rfl⟩, ih hp.2 ho⟩
  | embedded hhead =>
    subst ho
    cases hhead
  | foreignKey hhead =>
    subst ho
    cases hhead

theorem divided (h : Resolves schema store owner heads clauses)
    (hschema : schema.hasEmbedded = false) (hu : Outline.UndividedHeads heads)
    (hp : ∀ head ∈ heads, schema.head owner head.1 = .plain → Operator.isToken head.1 = false →
      head.2.pathlike = true) : ∀ clause ∈ clauses, clause.Divided := by
  induction h with
  | nil => simp
  | embedded hhead hkind =>
    exact absurd hkind (Schema.kind_of_not_hasEmbedded hschema hhead)
  | empty _ _ _ ih | foreignKey _ _ _ _ _ _ ih =>
    intro clause hc
    rcases List.mem_cons.mp hc with rfl | hc
    · trivial
    · exact ih hu.2.2 (fun head hh => hp head (List.mem_cons_of_mem _ hh)) clause hc
  | @plain _ field _ _ _ _ hhead _ hbelow _ _ ih =>
    intro clause hc
    rcases List.mem_cons.mp hc with rfl | hc
    · intro ht
      exact ⟨noDot_of_splitKey hu.1 ht,
        pathlikeAll_append (hp _ List.mem_cons_self hhead ht) hbelow.pathlikeAll⟩
    · exact ih hu.2.2 (fun head hh => hp head (List.mem_cons_of_mem _ hh)) clause hc

end Resolves

/-- Whether the keys below the plain fields of a tree say the same there as in a path. A field that
is named like an operator leads to nothing that is not refused. -/
def Tree.Pathlike (schema : Schema) (type : EntityType) (tree : Tree) : Prop :=
  ∀ head ∈ tree.outline.heads, schema.head (some type) head.1 = .plain →
    Operator.isToken head.1 = false → head.2.pathlike = true

section Subdocument
variable {schema : Schema} {store : Store} {type : EntityType} {tree : Tree} {entity : Document}
  {clauses : List Clause}

/-- Without embedded relations and without arrays in an entity, a check of conditions and their
filter agree wherever both succeed, if the keys inside subdocuments say the same there as in a
path. -/
theorem check_eq_holds [Pattern.Engine] (hschema : schema.hasEmbedded = false)
    (htree : tree.Pathlike schema type) (hentity : Document.arrayFree entity = true)
    (hresolve : (resolve schema store type tree).result = .ok clauses) {checked selected : Bool}
    (hchecked : (check schema store type tree entity).result = .ok checked)
    (hselected : Filter.holds (Clause.selector clauses).document entity = .ok selected) :
    checked = selected := by
  obtain ⟨below, hbelow, rfl⟩ := Outline.resolves_of_ok _ hresolve
  have hdivided : ∀ clause ∈ tree.outline.ownClauses ++ below, clause.Divided := by
    intro clause hc
    rcases List.mem_append.mp hc with hc | hc
    · obtain ⟨entry, -, rfl⟩ := List.mem_map.mp hc
      trivial
    · exact hbelow.divided hschema (Outline.heads_undivided tree.outline_undivided) htree clause hc
  obtain ⟨truth, hcheck, hfilter⟩ := Clause.decides_both hdivided
    (Resolves.filledAll_append hbelow.filledAll) schema hentity
  rw [result_check hresolve] at hchecked
  rw [hcheck.mapError _ _ hchecked, hfilter _ hselected]

theorem check_eq_holds_post :
    let schema : Schema := ⟨[("Post", ⟨[("owner", ⟨.foreignKey, some ⟨"Owner"⟩, none⟩)], []⟩)]⟩
    let store : MemoryStore := .ofEntries [(⟨"Owner"⟩, [("_id", .int32 7), ("name", .text "X")])]
    let tree : Tree := [("m", .nested [("a", .nested [("b", .scalar .null)]),
      ("c", .operators [(.gt, .int32 1)])]), ("owner", .nested [("name", .scalar (.text "X"))])]
    let entity : Document := [("m", .document [("a", .null), ("c", .int32 2)]),
      ("owner_id", .int32 7)]
    let clauses : List Clause := [.path "m" [.field "c" (.operators [(.gt, .int32 1)]),
      .path "a" [.field "b" (.scalar .null)]], .foreignKey "owner_id" [.int32 7]]
    schema.hasEmbedded = false ∧ tree.Pathlike schema ⟨"Post"⟩ ∧
      Document.arrayFree entity = true ∧
      (resolve schema store ⟨"Post"⟩ tree).result = .ok clauses ∧
      (check schema store ⟨"Post"⟩ tree entity).result = .ok true ∧
      Filter.holds (Clause.selector clauses).document entity = .ok true ∧ true = true := by
  intro schema store tree entity clauses
  have hschema : schema.hasEmbedded = false := rfl
  have htree : tree.Pathlike schema ⟨"Post"⟩ := by
    have hheads : tree.outline.heads = [("m", .mk [("c", .operators [(.gt, .int32 1)])]
        [("a", .mk [("b", .scalar .null)] [])]),
        ("owner", .mk [("name", .scalar (.text "X"))] [])] := by
      with_unfolding_all rfl
    rw [Tree.Pathlike, hheads]
    intro head hh _ _
    rcases List.mem_cons.mp hh with rfl | hh
    · rfl
    · rw [List.mem_singleton.mp hh]
      rfl
  have hentity : Document.arrayFree entity = true := rfl
  have hresolve : (resolve schema store ⟨"Post"⟩ tree).result = .ok clauses := by
    with_unfolding_all rfl
  have hchecked : (check schema store ⟨"Post"⟩ tree entity).result = .ok true := by
    rw [result_check hresolve]
    with_unfolding_all rfl
  have hselected : Filter.holds (Clause.selector clauses).document entity = .ok true := by
    with_unfolding_all rfl
  exact ⟨hschema, htree, hentity, hresolve, hchecked, hselected,
    check_eq_holds hschema htree hentity hresolve hchecked hselected⟩

/-- A list of filters below a field is a combination of filters to a check, and beside a path it is
a list to equal. An operator with a dot is one field to a check, and two segments of a path. -/
theorem check_holds_differ :
    let schema : Schema := ⟨[]⟩
    let store : MemoryStore := .ofEntries []
    let type : EntityType := ⟨"Post"⟩
    let combined : Tree :=
      [("m", .nested [("$or", .list [.document [("a", .int32 1)]]), ("a", .scalar (.int32 1))])]
    let entered : Tree :=
      [("m", .nested [("$x.y", .nested [("a", .scalar (.int32 1))]), ("b", .scalar .null)])]
    let post : Document := [("_id", .int32 1), ("m", .document [("a", .int32 1)])]
    let other : Document :=
      [("_id", .int32 1), ("m", .document [("$x", .document [("y", .document [("a", .int32 1)])])])]
    schema.hasEmbedded = false ∧ Document.arrayFree post = true ∧
      Document.arrayFree other = true ∧
      (∃ clauses, (resolve schema store type combined).result = .ok clauses ∧
        (check schema store type combined post).result = .ok true ∧
        Filter.holds (Clause.selector clauses).document post = .ok false) ∧
      ∃ clauses, (resolve schema store type entered).result = .ok clauses ∧
        (check schema store type entered other).result = .ok false ∧
        Filter.holds (Clause.selector clauses).document other = .ok true := by
  intro schema store type combined entered post other
  have hcombined : (resolve schema store type combined).result =
      .ok [.path "m" [.field "$or" (.list [.document [("a", .int32 1)]]),
        .field "a" (.scalar (.int32 1))]] := by
    with_unfolding_all rfl
  have hentered : (resolve schema store type entered).result =
      .ok [.path "m" [.field "b" (.scalar .null),
        .path "$x.y" [.field "a" (.scalar (.int32 1))]]] := by
    with_unfolding_all rfl
  refine ⟨rfl, rfl, rfl, ⟨_, hcombined, ?_, ?_⟩, _, hentered, ?_, ?_⟩
  · rw [result_check hcombined]
    rfl
  · rfl
  · rw [result_check hentered]
    rfl
  · rfl

end Subdocument
end AccessRules
