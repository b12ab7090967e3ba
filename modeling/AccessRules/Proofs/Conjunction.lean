import AccessRules.Pattern.Syntax
import AccessRules.Proofs.Narrowing
import AccessRules.Proofs.Strictness
import AccessRules.Proofs.Subdocument

/-! Conditions on different heads. Their union splits into what the two trees split into, and heads
resolve one by one, so the union has the clauses of both trees and no others; filters and checks
hold where every clause does, whatever their order and however they are grouped. -/
namespace AccessRules

/-- The first segment of a key; an operator is not divided. -/
def keyHead (key : String) : String :=
  match splitKey key with
  | some (head, _) => head
  | none => key

namespace Tree
variable {t₁ t₂ union : Tree} {head : String} {entry : String × Condition}

/-- No key of one tree has the head of a key of the other one. -/
def HeadsApart (t₁ t₂ : Tree) : Prop :=
  ∀ entry ∈ t₁, ∀ other ∈ t₂, keyHead entry.1 ≠ keyHead other.1

theorem HeadsApart.lookup_eq_none (h : HeadsApart t₁ t₂) {key : String} {c : Condition}
    (hmem : (key, c) ∈ t₂) : t₁.lookup key = none := by
  refine List.lookup_eq_none_iff.mpr fun entry he => bne_iff_ne.mpr ?_
  rintro rfl
  exact h entry he _ hmem rfl

theorem HeadsApart.mem_mergeAll (h : HeadsApart t₁ t₂) (h₁ : KeyMap.Sorted t₁)
    (h₂ : KeyMap.Sorted t₂) : entry ∈ t₁.mergeAll t₂ ↔ entry ∈ t₁ ∨ entry ∈ t₂ := by
  obtain ⟨key, c⟩ := entry
  rw [mergeAll, ← (sorted_mergeEntries t₂ h₁).lookup_eq_some_iff, ← h₁.lookup_eq_some_iff,
    ← h₂.lookup_eq_some_iff, lookup_mergeEntries h₂ h₁]
  cases hlookup : t₂.lookup key with
  | none => simp
  | some d =>
    have hnone := h.lookup_eq_none (KeyMap.mem_of_lookup hlookup)
    simp [hnone, d.mergeOnto_none]

theorem ordered_mergeAll (h₁ : t₁.Ordered) (h₂ : t₂.Ordered) : (t₁.mergeAll t₂).Ordered :=
  Condition.Ordered.mergeOnto h₂ fun p (hp : p ∈ some (.nested t₁)) => Option.some.inj hp ▸ h₁

theorem keyHead_of_contribution {c : Condition} (h : contribution head entry = some c) :
    keyHead entry.1 = head := by
  unfold contribution at h
  unfold keyHead
  cases hs : splitKey entry.1 with
  | none =>
    rw [hs] at h
    exact (Option.ite_none_right_eq_some.mp h).1.1
  | some parts =>
    rw [hs] at h
    exact (Option.ite_none_right_eq_some.mp h).1

/-- A tree whose entries are those of two trees with different heads. -/
structure IsUnion (union t₁ t₂ : Tree) : Prop where
  apart : HeadsApart t₁ t₂
  ordered : union.Ordered
  ordered₁ : t₁.Ordered
  ordered₂ : t₂.Ordered
  mem_iff : ∀ entry, entry ∈ union ↔ entry ∈ t₁ ∨ entry ∈ t₂

namespace IsUnion

theorem mergeAll (h : HeadsApart t₁ t₂) (h₁ : t₁.Ordered) (h₂ : t₂.Ordered) :
    IsUnion (t₁.mergeAll t₂) t₁ t₂ :=
  ⟨h, ordered_mergeAll h₁ h₂, h₁, h₂, fun _ => h.mem_mergeAll h₁.sorted h₂.sorted⟩

theorem symm (h : IsUnion union t₁ t₂) : IsUnion union t₂ t₁ where
  apart entry he other ho := (h.apart other ho entry he).symm
  ordered := h.ordered
  ordered₁ := h.ordered₂
  ordered₂ := h.ordered₁
  mem_iff entry := (h.mem_iff entry).trans or_comm

theorem mem_direct (h : IsUnion union t₁ t₂) :
    entry ∈ union.split.direct ↔ entry ∈ t₁.split.direct ∨ entry ∈ t₂.split.direct := by
  rw [mem_split_direct h.ordered.sorted, mem_split_direct h.ordered₁.sorted,
    mem_split_direct h.ordered₂.sorted, h.mem_iff, or_and_right]

theorem under_eq_left (h : IsUnion union t₁ t₂) (hsome : (t₁.under head).isSome = true) :
    union.under head = t₁.under head := by
  obtain ⟨entry, he, c, hc⟩ := isSome_under.mp hsome
  refine under_congr h.ordered.sorted h.ordered₁.sorted fun {other d} hd => ?_
  rw [h.mem_iff, or_iff_left_iff_imp]
  intro hmem
  -- an entry of the other tree that says something below the head would share it
  have hhead := (keyHead_of_contribution hc).trans (keyHead_of_contribution hd).symm
  exact absurd hhead (h.apart entry he other hmem)

theorem under_eq_some_iff (h : IsUnion union t₁ t₂) {c : Condition} :
    union.under head = some c ↔ t₁.under head = some c ∨ t₂.under head = some c := by
  constructor
  · intro hc
    obtain ⟨entry, he, hcontribution⟩ := isSome_under.mp (Option.isSome_of_mem hc)
    rcases (h.mem_iff entry).mp he with he | he
    · exact .inl (h.under_eq_left (isSome_under.mpr ⟨entry, he, hcontribution⟩) ▸ hc)
    · exact .inr (h.symm.under_eq_left (isSome_under.mpr ⟨entry, he, hcontribution⟩) ▸ hc)
  · rintro (hc | hc)
    · exact (h.under_eq_left (Option.isSome_of_mem hc)).trans hc
    · exact (h.symm.under_eq_left (Option.isSome_of_mem hc)).trans hc

theorem mem_heads (h : IsUnion union t₁ t₂) {below : Tree} :
    (head, below) ∈ union.split.heads ↔
      (head, below) ∈ t₁.split.heads ∨ (head, below) ∈ t₂.split.heads := by
  rw [mem_split_heads h.ordered, mem_split_heads h.ordered₁, mem_split_heads h.ordered₂,
    h.under_eq_some_iff]

theorem mem_ownClauses (h : IsUnion union t₁ t₂) {clause : Clause} :
    clause ∈ union.outline.ownClauses ↔
      clause ∈ t₁.outline.ownClauses ∨ clause ∈ t₂.outline.ownClauses := by
  rw [outline_eq, outline_eq, outline_eq]
  simp only [Outline.ownClauses, Outline.direct, List.mem_map, h.mem_direct, or_and_right,
    exists_or]

theorem mem_outline_heads (h : IsUnion union t₁ t₂) {head : String × Outline} :
    head ∈ union.outline.heads ↔ head ∈ t₁.outline.heads ∨ head ∈ t₂.outline.heads := by
  rw [outline_eq, outline_eq, outline_eq]
  simp only [Outline.heads, List.mem_map, Prod.exists, h.mem_heads, or_and_right, exists_or]

end IsUnion
end Tree

namespace Outline
variable {schema : Schema} {store : Store} {owner : Option EntityType}
  {heads : List (String × Outline)} {clauses : List Clause}

theorem resolveHeads_eq_ok_iff : (resolveHeads schema store owner heads).result = .ok clauses ↔
    List.Forall₂ (fun head clause => (resolveHead schema store owner head).result = .ok clause)
      heads clauses := by
  induction heads generalizing clauses with
  | nil =>
    rw [resolveHeads, List.forall₂_nil_left_iff, Run.result_pure, Except.ok.injEq, eq_comm]
  | cons head rest ih =>
    rw [resolveHeads_cons, List.forall₂_cons_left_iff]
    constructor
    · intro h
      obtain ⟨clause, hclause, h⟩ := Run.result_bind_ok h
      obtain ⟨more, hmore, h⟩ := Run.result_bind_ok h
      exact ⟨clause, more, hclause, ih.mp hmore, (Except.ok.inj h).symm⟩
    · rintro ⟨clause, more, hclause, hmore, rfl⟩
      rw [Run.bind_ok hclause, Run.bind_ok (ih.mpr hmore)]
      rfl

theorem resolve_eq_ok_iff {o : Outline} : (o.resolve schema store owner).result = .ok clauses ↔
    ∃ below, (resolveHeads schema store owner o.heads).result = .ok below ∧
      o.ownClauses ++ below = clauses := by
  rw [resolve_eq]
  constructor
  · intro h
    obtain ⟨below, hbelow, h⟩ := Run.result_bind_ok h
    exact ⟨below, hbelow, Except.ok.inj h⟩
  · rintro ⟨below, hbelow, rfl⟩
    rw [Run.bind_ok hbelow]
    rfl

theorem mem_resolved {o : Outline} (h : (o.resolve schema store owner).result = .ok clauses)
    {clause : Clause} : clause ∈ clauses ↔ clause ∈ o.ownClauses ∨
      ∃ head ∈ o.heads, (resolveHead schema store owner head).result = .ok clause := by
  obtain ⟨below, hbelow, rfl⟩ := resolve_eq_ok_iff.mp h
  have hall := resolveHeads_eq_ok_iff.mp hbelow
  rw [List.mem_append]
  refine or_congr_right ⟨exists_left_of_mem hall, ?_⟩
  rintro ⟨head, hh, hclause⟩
  obtain ⟨found, hf, hfound⟩ := exists_right_of_mem hall hh
  rw [hclause] at hfound
  exact Except.ok.inj hfound ▸ hf

theorem exists_resolved (o : Outline)
    (h : ∀ head ∈ o.heads, ∃ clause, (resolveHead schema store owner head).result = .ok clause) :
    ∃ clauses, (o.resolve schema store owner).result = .ok clauses := by
  have hheads : ∃ below, List.Forall₂
      (fun head clause => (resolveHead schema store owner head).result = .ok clause)
      o.heads below := by
    generalize o.heads = heads at h
    induction heads with
    | nil => exact ⟨[], .nil⟩
    | cons head rest ih =>
      obtain ⟨clause, hclause⟩ := h head List.mem_cons_self
      obtain ⟨below, hbelow⟩ := ih fun other ho => h other (List.mem_cons_of_mem _ ho)
      exact ⟨clause :: below, .cons hclause hbelow⟩
  obtain ⟨below, hbelow⟩ := hheads
  exact ⟨_, resolve_eq_ok_iff.mpr ⟨below, resolveHeads_eq_ok_iff.mpr hbelow, rfl⟩⟩

theorem exists_of_mem_heads {o : Outline}
    (h : (o.resolve schema store owner).result = .ok clauses) {head : String × Outline}
    (hh : head ∈ o.heads) :
    ∃ clause, (resolveHead schema store owner head).result = .ok clause := by
  obtain ⟨below, hbelow, -⟩ := resolve_eq_ok_iff.mp h
  obtain ⟨clause, -, hclause⟩ := exists_right_of_mem (resolveHeads_eq_ok_iff.mp hbelow) hh
  exact ⟨clause, hclause⟩

end Outline

theorem Tree.IsUnion.resolve {schema : Schema} {store : Store} {type : EntityType}
    {t₁ t₂ union : Tree} (h : IsUnion union t₁ t₂) {c₁ c₂ : List Clause}
    (h₁ : (AccessRules.resolve schema store type t₁).result = .ok c₁)
    (h₂ : (AccessRules.resolve schema store type t₂).result = .ok c₂) :
    ∃ clauses, (AccessRules.resolve schema store type union).result = .ok clauses ∧
      ∀ clause, clause ∈ clauses ↔ clause ∈ c₁ ∨ clause ∈ c₂ := by
  have hheads : ∀ head ∈ union.outline.heads, ∃ clause,
      (Outline.resolveHead schema store (some type) head).result = .ok clause := by
    intro head hh
    rcases h.mem_outline_heads.mp hh with hh | hh
    · exact Outline.exists_of_mem_heads h₁ hh
    · exact Outline.exists_of_mem_heads h₂ hh
  obtain ⟨clauses, hclauses⟩ := Outline.exists_resolved union.outline hheads
  refine ⟨clauses, hclauses, fun clause => ?_⟩
  rw [Outline.mem_resolved hclauses, Outline.mem_resolved h₁, Outline.mem_resolved h₂,
    h.mem_ownClauses]
  simp only [h.mem_outline_heads, or_and_right, exists_or]
  exact or_or_or_comm

namespace Clause
variable {schema : Schema} {clauses : List Clause} {entity : Document}

theorem holds_eq_true_iff [Pattern.Engine] :
    Filter.holds (selector clauses).document entity = .ok true ↔
    ∀ clause ∈ clauses, Filter.holds clause.pairs entity = .ok true := by
  rw [holds_selector, holds_pairsOf, allM_eq_true_iff]

theorem satisfies_eq_true_iff [Pattern.Engine] : satisfies schema clauses entity = .ok true ↔
    ∀ clause ∈ clauses, (clause.isOwn = true → Filter.holds clause.pairs entity = .ok true) ∧
      clause.holds schema entity = .ok true := by
  rw [satisfies, afterOwn_eq_true_iff, holds_pairsOf, allHold_eq_allM, allM_eq_true_iff,
    allM_eq_true_iff]
  simp only [List.mem_filter, and_imp]
  exact forall₂_and.symm

end Clause

section Union
variable {schema : Schema} {store : Store} {type : EntityType} {t₁ t₂ : Tree}
  {c₁ c₂ : List Clause}

/-- The union of conditions on different heads resolves where the two trees do. Its filter accepts,
and a check of it passes, exactly where those of both trees do. -/
theorem union_holds_iff [Pattern.Engine] (ho₁ : t₁.Ordered) (ho₂ : t₂.Ordered)
    (hapart : t₁.HeadsApart t₂) (h₁ : (resolve schema store type t₁).result = .ok c₁)
    (h₂ : (resolve schema store type t₂).result = .ok c₂) :
    ∃ clauses, (resolve schema store type (t₁.mergeAll t₂)).result = .ok clauses ∧
      ∀ entity,
        (Filter.holds (Clause.selector clauses).document entity = .ok true ↔
          Filter.holds (Clause.selector c₁).document entity = .ok true ∧
            Filter.holds (Clause.selector c₂).document entity = .ok true) ∧
        ((check schema store type (t₁.mergeAll t₂) entity).result = .ok true ↔
          (check schema store type t₁ entity).result = .ok true ∧
            (check schema store type t₂ entity).result = .ok true) := by
  obtain ⟨clauses, hclauses, hmem⟩ := (Tree.IsUnion.mergeAll hapart ho₁ ho₂).resolve h₁ h₂
  have hboth : ∀ p : Clause → Prop,
      (∀ clause ∈ clauses, p clause) ↔ (∀ clause ∈ c₁, p clause) ∧ ∀ clause ∈ c₂, p clause := by
    intro p
    simp only [hmem, or_imp, forall_and]
  refine ⟨clauses, hclauses, fun entity => ⟨?_, ?_⟩⟩
  · rw [Clause.holds_eq_true_iff, Clause.holds_eq_true_iff, Clause.holds_eq_true_iff, hboth]
  · rw [result_check hclauses, result_check h₁, result_check h₂, mapError_eq_ok, mapError_eq_ok,
      mapError_eq_ok, Clause.satisfies_eq_true_iff, Clause.satisfies_eq_true_iff,
      Clause.satisfies_eq_true_iff, hboth]

end Union

/-- A foreign key that is given as it is, and the relation through it: two conditions on one key. -/
theorem union_holds_iff_project :
    let schema : Schema := ⟨[("Project", ⟨[("owner", ⟨.foreignKey, some ⟨"Owner"⟩, none⟩)], []⟩)]⟩
    let store : MemoryStore := .ofEntries [(⟨"Owner"⟩, [("_id", .int32 7), ("name", .text "X")])]
    let byKey : Tree := [("owner_id", .scalar (.int32 7))]
    let byName : Tree := [("owner", .nested [("name", .scalar (.text "X"))])]
    let onKey : List Clause := [.field "owner_id" (.scalar (.int32 7))]
    let onName : List Clause := [.foreignKey "owner_id" [.int32 7]]
    byKey.Ordered ∧ byName.Ordered ∧ byKey.HeadsApart byName ∧
      (resolve schema store ⟨"Project"⟩ byKey).result = .ok onKey ∧
      (resolve schema store ⟨"Project"⟩ byName).result = .ok onName ∧
      ∃ clauses, (resolve schema store ⟨"Project"⟩ (byKey.mergeAll byName)).result = .ok clauses ∧
        ∀ entity,
          (Filter.holds (Clause.selector clauses).document entity = .ok true ↔
            Filter.holds (Clause.selector onKey).document entity = .ok true ∧
              Filter.holds (Clause.selector onName).document entity = .ok true) ∧
          ((check schema store ⟨"Project"⟩ (byKey.mergeAll byName) entity).result = .ok true ↔
            (check schema store ⟨"Project"⟩ byKey entity).result = .ok true ∧
              (check schema store ⟨"Project"⟩ byName entity).result = .ok true) := by
  intro schema store byKey byName onKey onName
  have hkey : byKey.Ordered := Tree.ordered_single (.leaf rfl)
  have hname : byName.Ordered := Tree.ordered_single (Tree.ordered_single (.leaf rfl))
  have hapart : byKey.HeadsApart byName := by
    intro entry he other ho
    rw [List.mem_singleton.mp he, List.mem_singleton.mp ho]
    decide
  have honKey : (resolve schema store ⟨"Project"⟩ byKey).result = .ok onKey := by
    with_unfolding_all rfl
  have honName : (resolve schema store ⟨"Project"⟩ byName).result = .ok onName := by
    with_unfolding_all rfl
  exact ⟨hkey, hname, hapart, honKey, honName,
    union_holds_iff hkey hname hapart honKey honName⟩

end AccessRules
