import AccessRules.Proofs.Derivation
import Mathlib.Data.List.TakeWhile

/-! Keys that are read as fields. An outline has no dotted keys left; where it has no operator keys
either, the keys of its clauses name fields. -/
namespace AccessRules

/-- A key that is neither an operator nor a dotted path. -/
structure FieldName (key : String) : Prop where
  noToken : Operator.isToken key = false
  noDot : '.' ∉ key.toList

theorem Operator.ofKey?_eq_none {key : String} (h : isToken key = false) : ofKey? key = none := by
  simp [ofKey?, h]

theorem noDot_of_splitKey {key : String} (h : splitKey key = none)
    (ht : Operator.isToken key = false) : '.' ∉ key.toList := by
  unfold splitKey at h
  rw [if_neg (by simp [ht])] at h
  split at h
  · cases h
  · next hs =>
    intro hm
    simpa using List.dropWhile_eq_nil_iff.mp hs _ hm

theorem exists_head_of_dot {key : String} (h : '.' ∈ key.toList) :
    ∃ head rest, key = head ++ "." ++ rest ∧ '.' ∉ head.toList := by
  obtain ⟨cs, ds, hchars, hcs⟩ := List.eq_append_cons_of_mem h
  refine ⟨String.ofList cs, String.ofList ds, ?_, ?_⟩
  · rw [← String.toList_inj, hchars]
    simp [String.toList_append]
  · rw [String.toList_ofList]
    exact hcs

theorem FieldName.of_undivided {key : String} (h : splitKey key = none)
    (ht : Operator.isToken key = false) : FieldName key :=
  ⟨ht, noDot_of_splitKey h ht⟩

theorem splitKey_head {key head tail : String} (h : splitKey key = some (head, tail)) :
    splitKey head = none := by
  unfold splitKey at h
  split at h
  · cases h
  · split at h
    · cases h
      have hnil : (key.toList.takeWhile (· ≠ '.')).dropWhile (· ≠ '.') = [] := by
        refine List.dropWhile_eq_nil_iff.mpr fun c hc => ?_
        simpa using List.mem_takeWhile_imp hc
      unfold splitKey
      rw [String.toList_ofList, hnil]
      exact ite_self none
    · cases h

@[simp] theorem Operator.isToken_append (key rest : String) :
    isToken (key ++ "." ++ rest) = isToken key := by
  unfold isToken
  rw [String.toList_append, String.toList_append]
  cases key.toList with
  | nil => rfl
  | cons c cs => rfl

def HasHead (key head : String) : Prop :=
  (splitKey key = none ∧ key = head) ∨ ∃ tail, splitKey key = some (head, tail)

theorem HasHead.undivided {key head : String} (h : HasHead key head) : splitKey head = none := by
  rcases h with ⟨h, rfl⟩ | ⟨tail, h⟩
  · exact h
  · exact splitKey_head h

theorem HasHead.noToken {key head : String} (h : HasHead key head)
    (ht : Operator.isToken key = false) : Operator.isToken head = false := by
  rcases h with ⟨-, rfl⟩ | ⟨tail, h⟩
  · exact ht
  · unfold splitKey at h
    rw [if_neg (by simp [ht])] at h
    split at h
    · cases h
      unfold Operator.isToken at *
      rw [String.toList_ofList]
      cases hk : key.toList with
      | nil => rfl
      | cons c cs => by_cases hc : c = '.' <;> simp_all
    · cases h

namespace Split

/-- The keys of a split are heads of given keys; its conditions on fields have such a key as it
is. -/
def KeysFrom (keys : List String) (split : Split) : Prop :=
  (∀ entry ∈ split.direct, entry.1 ∈ keys ∧ splitKey entry.1 = none) ∧
    ∀ entry ∈ split.heads, ∃ key ∈ keys, HasHead key entry.1

theorem KeysFrom.addBelow {keys : List String} {split : Split} (h : split.KeysFrom keys)
    {key head : String} (hk : key ∈ keys) (hh : HasHead key head) (below : Tree) :
    (split.addBelow head below).KeysFrom keys := by
  refine ⟨h.1, fun entry he => ?_⟩
  rcases KeyMap.mem_of_mem_alter he with hentry | hentry
  · rw [hentry]
    exact ⟨key, hk, hh⟩
  · exact h.2 entry hentry

theorem KeysFrom.add {keys : List String} {split : Split} (h : split.KeysFrom keys)
    {key : String} (hk : key ∈ keys) (condition : Condition) :
    (split.add key condition).KeysFrom keys := by
  unfold Split.add
  split
  · next head tail hs => exact h.addBelow hk (.inr ⟨tail, hs⟩) _
  · next hs =>
    split
    · exact h.addBelow hk (.inl ⟨hs, rfl⟩) _
    · refine ⟨fun entry he => ?_, h.2⟩
      rcases KeyMap.mem_of_mem_alter he with hentry | hentry
      · rw [hentry]
        exact ⟨hk, hs⟩
      · exact h.1 entry hentry

end Split

theorem Tree.split_keysFrom (tree : Tree) : tree.split.KeysFrom (tree.map (·.1)) := by
  have step : ∀ (entries : List (String × Condition)) (split : Split),
      (∀ entry ∈ entries, entry ∈ tree) → split.KeysFrom (tree.map (·.1)) →
      (entries.foldl (fun split entry => split.add entry.1 entry.2) split).KeysFrom
        (tree.map (·.1)) := by
    intro entries
    induction entries with
    | nil => exact fun _ _ h => h
    | cons entry rest ih =>
      intro split hmem h
      have hkey : entry.1 ∈ tree.map (·.1) :=
        List.mem_map.mpr ⟨entry, hmem entry List.mem_cons_self, rfl⟩
      exact ih _ (fun e he => hmem e (List.mem_cons_of_mem _ he)) (h.add hkey entry.2)
  exact step tree ⟨[], []⟩ (fun _ h => h) ⟨by simp, by simp⟩

mutual

def Outline.Undivided : Outline → Prop
  | .mk direct heads => (∀ entry ∈ direct, splitKey entry.1 = none) ∧ Outline.UndividedHeads heads

def Outline.UndividedHeads : List (String × Outline) → Prop
  | [] => True
  | (field, inside) :: rest =>
    splitKey field = none ∧ inside.Undivided ∧ Outline.UndividedHeads rest

end

@[simp] theorem Outline.undividedHeads_iff {heads : List (String × Outline)} :
    Outline.UndividedHeads heads ↔
      ∀ entry ∈ heads, splitKey entry.1 = none ∧ entry.2.Undivided := by
  induction heads with
  | nil => simp [Outline.UndividedHeads]
  | cons entry rest ih => simp [Outline.UndividedHeads, ih, and_assoc]

theorem Tree.outline_undivided (tree : Tree) : tree.outline.Undivided := by
  induction tree using Tree.outline.induct with
  | case1 tree ih =>
    rw [Tree.outline_eq, Outline.Undivided, Outline.undividedHeads_iff]
    refine ⟨fun entry he => (tree.split_keysFrom.1 entry he).2, fun entry he => ?_⟩
    obtain ⟨below, hb, rfl⟩ := List.mem_map.mp he
    obtain ⟨key, -, hhead⟩ := tree.split_keysFrom.2 below hb
    exact ⟨hhead.undivided, ih ⟨below, hb⟩⟩

section NoToken
variable {tree : Tree} (h : ∀ entry ∈ tree, Operator.isToken entry.1 = false)
include h

theorem Tree.noToken_of_mem_direct :
    ∀ entry ∈ tree.outline.direct, Operator.isToken entry.1 = false := by
  intro entry he
  rw [Tree.outline_eq] at he
  obtain ⟨written, hw, heq⟩ := List.mem_map.mp (tree.split_keysFrom.1 entry he).1
  rw [← heq]
  exact h written hw

theorem Tree.noToken_of_mem_heads :
    ∀ head ∈ tree.outline.heads, Operator.isToken head.1 = false := by
  intro head hh
  rw [Tree.outline_eq] at hh
  obtain ⟨entry, he, rfl⟩ := List.mem_map.mp hh
  obtain ⟨key, hk, hhead⟩ := tree.split_keysFrom.2 entry he
  obtain ⟨written, hw, rfl⟩ := List.mem_map.mp hk
  exact hhead.noToken (h written hw)

end NoToken

mutual

/-- Whether no key of an outline is an operator. -/
def Outline.literal : Outline → Bool
  | .mk direct heads =>
    direct.all (fun entry => !Operator.isToken entry.1) && Outline.literalHeads heads

def Outline.literalHeads : List (String × Outline) → Bool
  | [] => true
  | (field, inside) :: rest =>
    !Operator.isToken field && inside.literal && Outline.literalHeads rest

end

/-- Whether no segment of a key in a condition tree starts like an operator. -/
def Tree.literal (tree : Tree) : Bool := tree.outline.literal

namespace Clause

mutual

/-- The conditions have field names for keys, except for foreign keys, and nothing inside a plain
field is a relation. -/
def Literal : Clause → Prop
  | field key _ => FieldName key
  | path key inside => FieldName key ∧ PlainAll inside
  | embedded key _ inside => FieldName key ∧ LiteralAll inside
  | foreignKey _ _ => True

def LiteralAll : List Clause → Prop
  | [] => True
  | clause :: rest => clause.Literal ∧ LiteralAll rest

def Plain : Clause → Prop
  | field key _ => FieldName key
  | path key inside => FieldName key ∧ PlainAll inside
  | _ => False

def PlainAll : List Clause → Prop
  | [] => True
  | clause :: rest => clause.Plain ∧ PlainAll rest

end

@[simp] theorem literalAll_iff {clauses : List Clause} :
    LiteralAll clauses ↔ ∀ clause ∈ clauses, clause.Literal := by
  induction clauses with
  | nil => simp [LiteralAll]
  | cons clause rest ih => simp [LiteralAll, ih]

@[simp] theorem plainAll_iff {clauses : List Clause} :
    PlainAll clauses ↔ ∀ clause ∈ clauses, clause.Plain := by
  induction clauses with
  | nil => simp [PlainAll]
  | cons clause rest ih => simp [PlainAll, ih]

theorem Plain.literal {clause : Clause} (h : clause.Plain) : clause.Literal := by
  cases clause with
  | field key condition => exact h
  | path key inside => exact h
  | embedded key element inside => exact h.elim
  | foreignKey key ids => exact h.elim

theorem PlainAll.literalAll {clauses : List Clause} (h : PlainAll clauses) : LiteralAll clauses :=
  literalAll_iff.mpr fun clause hc => (plainAll_iff.mp h clause hc).literal

theorem LiteralAll.append {xs ys : List Clause} (hx : LiteralAll xs) (hy : LiteralAll ys) :
    LiteralAll (xs ++ ys) := by
  rw [literalAll_iff] at *
  exact fun clause h => (List.mem_append.mp h).elim (hx clause) (hy clause)

theorem PlainAll.append {xs ys : List Clause} (hx : PlainAll xs) (hy : PlainAll ys) :
    PlainAll (xs ++ ys) := by
  rw [plainAll_iff] at *
  exact fun clause h => (List.mem_append.mp h).elim (hx clause) (hy clause)

end Clause

namespace Outline

theorem ownClauses_plain {o : Outline} (hu : o.Undivided) (hl : o.literal = true) :
    Clause.PlainAll o.ownClauses := by
  obtain ⟨direct, heads⟩ := o
  rw [Outline.literal, Bool.and_eq_true, List.all_eq_true] at hl
  refine Clause.plainAll_iff.mpr fun clause hc => ?_
  obtain ⟨entry, he, rfl⟩ := List.mem_map.mp hc
  exact .of_undivided (hu.1 entry he) (by simpa using hl.1 entry he)

theorem direct_undivided {o : Outline} (hu : o.Undivided) :
    ∀ entry ∈ o.direct, splitKey entry.1 = none := by
  obtain ⟨direct, heads⟩ := o
  exact hu.1

theorem heads_undivided {o : Outline} (hu : o.Undivided) : UndividedHeads o.heads := by
  obtain ⟨direct, heads⟩ := o
  exact hu.2

theorem literalHeads_cons {field : String} {inside : Outline} {rest : List (String × Outline)} :
    literalHeads ((field, inside) :: rest) = true ↔
      Operator.isToken field = false ∧ inside.literal = true ∧ literalHeads rest = true := by
  rw [literalHeads, Bool.and_eq_true, Bool.and_eq_true, Bool.not_eq_true', and_assoc]

theorem heads_literal {o : Outline} (hl : o.literal = true) : literalHeads o.heads = true := by
  obtain ⟨direct, heads⟩ := o
  rw [Outline.literal, Bool.and_eq_true] at hl
  exact hl.2

end Outline

namespace Resolves
variable {schema : Schema} {store : Store} {owner : Option EntityType}
  {heads : List (String × Outline)} {clauses : List Clause}

theorem plainAll (h : Resolves schema store none heads clauses)
    (hu : Outline.UndividedHeads heads) (hl : Outline.literalHeads heads = true) :
    Clause.PlainAll clauses := by
  generalize ho : (none : Option EntityType) = owner at h
  induction h with
  | nil => trivial
  | empty _ _ _ ih =>
    obtain ⟨ht, -, hrest⟩ := Outline.literalHeads_cons.mp hl
    exact ⟨.of_undivided hu.1 ht, ih hu.2.2 hrest ho⟩
  | plain _ _ _ _ ihBelow ih =>
    obtain ⟨ht, hinside, hrest⟩ := Outline.literalHeads_cons.mp hl
    have hown := Outline.ownClauses_plain hu.2.1 hinside
    have hbelow := ihBelow (Outline.heads_undivided hu.2.1) (Outline.heads_literal hinside) rfl
    exact ⟨⟨.of_undivided hu.1 ht, hown.append hbelow⟩, ih hu.2.2 hrest ho⟩
  | embedded hhead =>
    -- below no owner of a known type nothing is a relation
    subst ho
    cases hhead
  | foreignKey hhead =>
    subst ho
    cases hhead

theorem literalAll (h : Resolves schema store owner heads clauses)
    (hu : Outline.UndividedHeads heads) (hl : Outline.literalHeads heads = true) :
    Clause.LiteralAll clauses := by
  induction h with
  | nil => trivial
  | empty _ _ _ ih =>
    obtain ⟨ht, -, hrest⟩ := Outline.literalHeads_cons.mp hl
    exact ⟨.of_undivided hu.1 ht, ih hu.2.2 hrest⟩
  | plain _ _ hbelow _ _ ih =>
    obtain ⟨ht, hinside, hrest⟩ := Outline.literalHeads_cons.mp hl
    have hown := Outline.ownClauses_plain hu.2.1 hinside
    have hbelow := hbelow.plainAll (Outline.heads_undivided hu.2.1) (Outline.heads_literal hinside)
    exact ⟨⟨.of_undivided hu.1 ht, hown.append hbelow⟩, ih hu.2.2 hrest⟩
  | embedded _ _ _ _ ihBelow ih =>
    obtain ⟨ht, hinside, hrest⟩ := Outline.literalHeads_cons.mp hl
    have hown := Outline.ownClauses_plain hu.2.1 hinside
    have hbelow := ihBelow (Outline.heads_undivided hu.2.1) (Outline.heads_literal hinside)
    exact ⟨⟨.of_undivided hu.1 ht, hown.literalAll.append hbelow⟩, ih hu.2.2 hrest⟩
  | foreignKey _ _ _ _ _ _ ih =>
    exact ⟨trivial, ih hu.2.2 (Outline.literalHeads_cons.mp hl).2.2⟩

end Resolves

theorem resolve_literalAll {schema : Schema} {store : Store} {type : EntityType} {tree : Tree}
    {clauses : List Clause} (hl : tree.literal = true)
    (h : (resolve schema store type tree).result = .ok clauses) : Clause.LiteralAll clauses := by
  obtain ⟨below, hbelow, rfl⟩ := Outline.resolves_of_ok _ h
  have hu := tree.outline_undivided
  exact (Outline.ownClauses_plain hu hl).literalAll.append
    (hbelow.literalAll (Outline.heads_undivided hu) (Outline.heads_literal hl))

end AccessRules
