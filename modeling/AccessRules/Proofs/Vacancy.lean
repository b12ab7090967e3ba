import AccessRules.Pattern.Syntax
import AccessRules.Proofs.Agreement

/-! Fields without content. Paths and elements are all that conditions see of a field unless one of
them is on the field itself, and neither tells apart a field that is missing, null or an empty
array: a check and a filter answer the same on all three. -/
namespace AccessRules

/-- The entities agree on all fields but one, which has no content in either. -/
structure SameContent (field : String) (entity other : Document) : Prop where
  elsewhere : ∀ key, key ≠ field → entity.lookup key = other.lookup key
  vacant : isVacant (entity.lookup field) = true
  vacantOther : isVacant (other.lookup field) = true

theorem isPathOnly_vacant {value : Option Value} (h : isVacant value = true)
    (inside : List Clause) :
    isPathOnly inside value =
      inside.any fun clause => (Text.position? clause.key).isSome := by
  unfold isVacant at h
  split at h
  · simp [isPathOnly]
  · simp [isPathOnly]
  · simp [isPathOnly]
  · cases h

theorem Path.elements_vacant {value : Option Value} (h : isVacant value = true) :
    elements [value] = [] := by
  unfold isVacant at h
  split at h
  · rfl
  · rfl
  · rfl
  · cases h

theorem Filter.fieldHolds_token [Pattern.Engine] {key : String} (ht : Operator.isToken key = true)
    {condition : Value} (hc : combines key condition = false) (entity other : Document) :
    fieldHolds key condition entity = fieldHolds key condition other := by
  obtain ⟨op, hop⟩ : ∃ op, Operator.ofKey? key = some op := by
    rw [Operator.ofKey?, if_pos ht]
    exact ⟨_, rfl⟩
  cases condition with
  | array items =>
    rw [combines, hop] at hc
    rw [fieldHolds, fieldHolds, hop]
    cases op with
    | and | or | nor => cases hc
    | _ => rfl
  | _ => rw [fieldHolds, fieldHolds, hop]

namespace Clause

/-- The key of a clause names a field, unless it is a foreign key. -/
def Named : Clause → Prop
  | field key _ => FieldName key
  | path key _ => FieldName key
  | embedded key _ _ => FieldName key
  | foreignKey _ _ => True

end Clause

namespace SameContent
variable {field : String} {entity other : Document} (h : SameContent field entity other)
include h

theorem leaves_below {key : String} (hdot : '.' ∉ key.toList) (rest : String) :
    Path.leaves entity (key ++ "." ++ rest) = Path.leaves other (key ++ "." ++ rest) := by
  by_cases hk : key = field
  · subst hk
    rw [Path.leaves_below_vacant hdot _ _ h.vacant, Path.leaves_below_vacant hdot _ _ h.vacantOther]
  · rw [Path.leaves_eq, Path.leaves_eq, Path.descend_below hdot, Path.descend_below hdot,
      h.elsewhere key hk]

theorem leaves_eq {key : String} (hk : key ≠ field) :
    Path.leaves entity key = Path.leaves other key := by
  by_cases hdot : '.' ∈ key.toList
  · obtain ⟨head, rest, rfl, hhead⟩ := exists_head_of_dot hdot
    exact h.leaves_below hhead rest
  · rw [Path.leaves_field hdot, Path.leaves_field hdot, h.elsewhere key hk]

theorem elements_eq (key : String) :
    Path.elements [entity.lookup key] = Path.elements [other.lookup key] := by
  by_cases hk : key = field
  · subst hk
    rw [Path.elements_vacant h.vacant, Path.elements_vacant h.vacantOther]
  · rw [h.elsewhere key hk]

variable [Pattern.Engine]

theorem fieldHolds_eq {key : String} (hk : key ≠ field) {condition : Value}
    (hc : Operator.isToken key = true → Filter.combines key condition = false) :
    Filter.fieldHolds key condition entity = Filter.fieldHolds key condition other := by
  cases ht : Operator.isToken key with
  | true => exact Filter.fieldHolds_token ht (hc ht) entity other
  | false =>
    have hkey := Operator.ofKey?_eq_none ht
    rw [Filter.fieldHolds_path hkey, Filter.fieldHolds_path hkey, h.leaves_eq hk]

theorem holds_pairs {clause : Clause} (hn : clause.Named)
    (hown : clause.isOwn = true → clause.key ≠ field) :
    Filter.holds clause.pairs entity = Filter.holds clause.pairs other := by
  cases clause with
  | field key condition =>
    have hkey : FieldName key := hn
    rw [Clause.pairs, Filter.holds_singleton, Filter.holds_singleton]
    exact h.fieldHolds_eq (hown rfl) fun ht =>
      absurd (hkey.noToken.symm.trans ht) Bool.false_ne_true
  | foreignKey key ids =>
    rw [Clause.pairs, Filter.holds_singleton, Filter.holds_singleton]
    exact h.fieldHolds_eq (hown rfl) fun _ => rfl
  | path key inside =>
    have hkey : FieldName key := hn
    rw [Clause.pairs, Filter.holds_eq_allM, Filter.holds_eq_allM, allM_map, allM_map]
    refine allM_congr fun pair _ => ?_
    have hbelow : Operator.ofKey? (key ++ "." ++ pair.1) = none :=
      Operator.ofKey?_eq_none ((Operator.isToken_append key pair.1).trans hkey.noToken)
    rw [Filter.fieldHolds_path hbelow, Filter.fieldHolds_path hbelow,
      h.leaves_below hkey.noDot pair.1]
  | embedded key element inside =>
    have hkey : FieldName key := hn
    rw [Clause.pairs_embedded, Clause.elementFilter, Filter.holds_singleton, Filter.holds_singleton,
      Filter.fieldHolds_elemMatch hkey, Filter.fieldHolds_elemMatch hkey, h.elements_eq key]

theorem holds_pairsOf {clauses : List Clause} (hn : ∀ clause ∈ clauses, clause.Named)
    (hown : ∀ clause ∈ clauses, clause.isOwn = true → clause.key ≠ field) :
    Filter.holds (Clause.pairsOf clauses) entity = Filter.holds (Clause.pairsOf clauses) other := by
  rw [Clause.holds_pairsOf, Clause.holds_pairsOf]
  exact allM_congr fun clause hc => h.holds_pairs (hn clause hc) (hown clause hc)

theorem holds_clause (schema : Schema) {clause : Clause} (hn : clause.Named) :
    clause.holds schema entity = clause.holds schema other := by
  cases clause with
  | field key condition => rfl
  | foreignKey key ids => rfl
  | embedded key element inside =>
    rw [Clause.holds, Clause.holds]
    by_cases hk : key = field
    · subst hk
      rw [if_pos h.vacant, if_pos h.vacantOther]
    · rw [h.elsewhere key hk]
  | path key inside =>
    rw [Clause.holds, Clause.holds]
    have hpaths : Filter.holds (Clause.document [.path key inside]) entity =
        Filter.holds (Clause.document [.path key inside]) other := by
      rw [Clause.holds_document, Clause.holds_document]
      exact h.holds_pairsOf (List.forall_mem_singleton.mpr hn) (List.forall_mem_singleton.mpr nofun)
    rw [hpaths]
    -- on the field itself both are read as dotted paths, or both as the empty document
    by_cases hk : key = field
    · subst hk
      rw [isPathOnly_vacant h.vacant, isPathOnly_vacant h.vacantOther, if_pos h.vacant,
        if_pos h.vacantOther]
    · rw [h.elsewhere key hk]

theorem satisfies_eq (schema : Schema) {clauses : List Clause}
    (hn : ∀ clause ∈ clauses, clause.Named)
    (hown : ∀ clause ∈ clauses, clause.isOwn = true → clause.key ≠ field) :
    satisfies schema clauses entity = satisfies schema clauses other := by
  have hfilter : Filter.holds (Clause.ownSelector clauses).document entity =
      Filter.holds (Clause.ownSelector clauses).document other := by
    rw [Clause.ownSelector, Clause.holds_selector, Clause.holds_selector]
    exact h.holds_pairsOf (fun clause hc => hn clause (List.mem_filter.mp hc).1)
      fun clause hc => hown clause (List.mem_filter.mp hc).1
  have hrest : Clause.allHold schema clauses entity = Clause.allHold schema clauses other := by
    rw [Clause.allHold_eq_allM, Clause.allHold_eq_allM]
    exact allM_congr fun clause hc => h.holds_clause schema (hn clause hc)
  rw [satisfies, satisfies, afterOwn, afterOwn, hfilter, hrest]

end SameContent

namespace Resolves
variable {schema : Schema} {store : Store} {owner : Option EntityType}
  {heads : List (String × Outline)} {clauses : List Clause}

theorem named (h : Resolves schema store owner heads clauses)
    (hu : Outline.UndividedHeads heads)
    (ht : ∀ head ∈ heads, Operator.isToken head.1 = false) :
    ∀ clause ∈ clauses, clause.Named := by
  induction h with
  | nil => exact nofun
  | foreignKey _ _ _ _ _ _ ih =>
    have hrest := ih hu.2.2 fun head hh => ht head (List.mem_cons_of_mem _ hh)
    exact List.forall_mem_cons.mpr ⟨trivial, hrest⟩
  | empty _ _ _ ih | plain _ _ _ _ _ ih | embedded _ _ _ _ _ ih =>
    have hfield := FieldName.of_undivided hu.1 (ht _ List.mem_cons_self)
    have hrest := ih hu.2.2 fun head hh => ht head (List.mem_cons_of_mem _ hh)
    exact List.forall_mem_cons.mpr ⟨hfield, hrest⟩

end Resolves

def Document.without (field : String) (doc : Document) : Document :=
  doc.filter fun entry => entry.1 ≠ field

@[simp] theorem Document.lookup_without (field key : String) (doc : Document) :
    (doc.without field).lookup key = if key = field then none else doc.lookup key := by
  induction doc with
  | nil => simp [without]
  | cons entry rest ih =>
    unfold without at *
    grind

section Vacancy
variable {schema : Schema} {store : Store} {type : EntityType} {tree : Tree} {field : String}
  {clauses : List Clause}

theorem resolve_named (h : (resolve schema store type tree).result = .ok clauses)
    (ht : ∀ entry ∈ tree, Operator.isToken entry.1 = false) :
    ∀ clause ∈ clauses, clause.Named := by
  obtain ⟨below, hbelow, rfl⟩ := Outline.resolves_of_ok _ h
  intro clause hc
  rcases List.mem_append.mp hc with hc | hc
  · obtain ⟨entry, he, rfl⟩ := List.mem_map.mp hc
    exact FieldName.of_undivided (Outline.direct_undivided tree.outline_undivided entry he)
      (Tree.noToken_of_mem_direct ht entry he)
  · exact hbelow.named (Outline.heads_undivided tree.outline_undivided)
      (Tree.noToken_of_mem_heads ht) clause hc

theorem sameContent_without (field : String) {content : Value}
    (hcontent : content = .null ∨ content = .array []) (entity : Document) :
    SameContent field (Document.insert field content entity) (entity.without field) where
  elsewhere key hk := by
    rw [Document.lookup_insert, Document.lookup_without, if_neg hk, if_neg hk]
  vacant := by
    rw [Document.lookup_insert, if_pos rfl]
    rcases hcontent with rfl | rfl <;> rfl
  vacantOther := by
    rw [Document.lookup_without, if_pos rfl]
    rfl

/-- Where no clause is on a field itself, a check answers the same on an entity without the field,
with null in it and with an empty array in it, and so does the filter of the clauses. -/
theorem check_vacant [Pattern.Engine] {content : Value}
    (hcontent : content = .null ∨ content = .array [])
    (hkeys : ∀ entry ∈ tree, Operator.isToken entry.1 = false)
    (hfield : ∀ clauses, (resolve schema store type tree).result = .ok clauses →
      ∀ clause ∈ clauses, clause.isOwn = true → clause.key ≠ field) (entity : Document) :
    check schema store type tree (Document.insert field content entity) =
        check schema store type tree (entity.without field) ∧
      ∀ clauses, (resolve schema store type tree).result = .ok clauses →
        Filter.holds (Clause.selector clauses).document (Document.insert field content entity) =
          Filter.holds (Clause.selector clauses).document (entity.without field) := by
  have hsame := sameContent_without field hcontent entity
  refine ⟨?_, fun clauses h => ?_⟩
  · cases h : (resolve schema store type tree).result with
    | error e => rw [check, check, Run.bind_error h, Run.bind_error h]
    | ok clauses =>
      rw [check, check, Run.bind_ok h, Run.bind_ok h,
        hsame.satisfies_eq schema (resolve_named h hkeys) (hfield clauses h)]
  · rw [Clause.holds_selector, Clause.holds_selector]
    exact hsame.holds_pairsOf (resolve_named h hkeys) (hfield clauses h)

end Vacancy

theorem check_vacant_post :
    let schema : Schema :=
      ⟨[("Post", ⟨[("tags", ⟨.embedded, some ⟨"Tag"⟩, none⟩)], []⟩),
        ("Tag", ⟨[], [("label", .text "A")]⟩)]⟩
    let store : MemoryStore := .ofEntries []
    let tree : Tree := [("m", .nested [("0", .nested [("x", .scalar .null)])]),
      ("tags", .nested [("label", .scalar (.text "A"))]), ("title", .scalar (.text "T"))]
    let clauses : List Clause := [.field "title" (.scalar (.text "T")),
      .path "m" [.path "0" [.field "x" (.scalar .null)]],
      .embedded "tags" ⟨"Tag"⟩ [.field "label" (.scalar (.text "A"))]]
    let post : Document := [("tags", .array [.document []]), ("title", .text "T")]
    (Value.array [] = .null ∨ Value.array [] = .array []) ∧
      (∀ entry ∈ tree, Operator.isToken entry.1 = false) ∧
      (resolve schema store ⟨"Post"⟩ tree).result = .ok clauses ∧
      (∀ clause ∈ clauses, clause.isOwn = true → clause.key ≠ "tags") ∧
      (check schema store ⟨"Post"⟩ tree (post.without "tags")).result = .ok true ∧
      check schema store ⟨"Post"⟩ tree (Document.insert "tags" (.array []) post) =
        check schema store ⟨"Post"⟩ tree (post.without "tags") ∧
      Filter.holds (Clause.selector clauses).document (post.without "tags") = .ok false ∧
      Filter.holds (Clause.selector clauses).document
          (Document.insert "tags" (.array []) post) =
        Filter.holds (Clause.selector clauses).document (post.without "tags") := by
  intro schema store tree clauses post
  have hkeys : ∀ entry ∈ tree, Operator.isToken entry.1 = false := by decide +kernel
  have hresolve : (resolve schema store ⟨"Post"⟩ tree).result = .ok clauses := by
    with_unfolding_all rfl
  have hown : ∀ clause ∈ clauses, clause.isOwn = true → clause.key ≠ "tags" := by decide +kernel
  have hfield : ∀ found, (resolve schema store ⟨"Post"⟩ tree).result = .ok found →
      ∀ clause ∈ found, clause.isOwn = true → clause.key ≠ "tags" := by
    intro found hfound
    rw [hresolve] at hfound
    cases hfound
    exact hown
  obtain ⟨hcheck, hfilter⟩ := check_vacant (.inr rfl) hkeys hfield post
  have hchecked : (check schema store ⟨"Post"⟩ tree (post.without "tags")).result = .ok true := by
    rw [result_check hresolve]
    with_unfolding_all rfl
  have hselected : Filter.holds (Clause.selector clauses).document (post.without "tags") =
      .ok false := by
    with_unfolding_all rfl
  exact ⟨.inr rfl, hkeys, hresolve, hown, hchecked, hcheck, hselected, hfilter clauses hresolve⟩

end AccessRules
