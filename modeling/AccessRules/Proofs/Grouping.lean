import AccessRules.Condition.Outline
import Mathlib.Data.List.Perm.Basic

/-! Splits, key by key. Merging acts on every key by itself, so what lies below a head of a tree is
the merge of what the entries with that head contribute, in their order. -/
namespace AccessRules

namespace KeyMap
variable {α : Type} {map other : KeyMap α}

theorem lookup_eq_some_iff (h : (map.map (·.1)).Nodup) {key : String} {value : α} :
    map.lookup key = some value ↔ (key, value) ∈ map := by
  induction map with
  | nil => simp
  | cons entry rest ih =>
    obtain ⟨k, v⟩ := entry
    obtain ⟨hfirst, hrest⟩ := List.nodup_cons.mp h
    rw [List.lookup_cons, List.mem_cons, Prod.mk.injEq]
    by_cases hk : key = k
    · subst hk
      have hnot : (key, value) ∉ rest := fun hmem => hfirst (List.mem_map.mpr ⟨_, hmem, rfl⟩)
      simp [hnot, eq_comm]
    · simp [hk, beq_false_of_ne hk, ih hrest]

theorem Sorted.nodup (h : Sorted map) : (map.map (·.1)).Nodup :=
  List.Pairwise.map _ (fun _ _ hlt heq => String.lt_irrefl _ (heq ▸ hlt)) h

theorem Sorted.lookup_eq_some_iff (h : Sorted map) {key : String} {value : α} :
    map.lookup key = some value ↔ (key, value) ∈ map :=
  KeyMap.lookup_eq_some_iff h.nodup

theorem Sorted.ext (h : Sorted map) (h' : Sorted other)
    (hmem : ∀ entry, entry ∈ map ↔ entry ∈ other) : map = other := by
  have hirrefl : ∀ a b : String × α, a.1 < b.1 → a ≠ b := fun a b hlt heq =>
    String.lt_irrefl b.1 (heq ▸ hlt)
  have hperm : map.Perm other := by
    refine (List.perm_ext_iff_of_nodup ?_ ?_).mpr hmem
    · exact h.imp (hirrefl _ _)
    · exact h'.imp (hirrefl _ _)
  exact hperm.eq_of_pairwise (fun a b _ _ hab hba => absurd hba (String.lt_asymm hab)) h h'

theorem mem_insert (h : Sorted map) {key : String} {value : α} {entry : String × α} :
    entry ∈ insert key value map ↔ entry = (key, value) ∨ entry.1 ≠ key ∧ entry ∈ map := by
  obtain ⟨k, v⟩ := entry
  have hinserted : Sorted (insert key value map) := sorted_alter _ key h
  rw [← hinserted.lookup_eq_some_iff, ← h.lookup_eq_some_iff, insert, lookup_alter _ _ _ h]
  by_cases hk : k = key
  · simp [hk, eq_comm]
  · simp [hk]

theorem alter_ne_nil (f : Option α → α) (key : String) (map : KeyMap α) :
    alter f key map ≠ [] := by
  cases map with
  | nil => exact List.cons_ne_nil _ _
  | cons first rest =>
    unfold alter
    split
    · exact List.cons_ne_nil _ _
    · split <;> exact List.cons_ne_nil _ _

theorem Sorted.ext_lookup (h : Sorted map) (h' : Sorted other)
    (hlookup : ∀ key, map.lookup key = other.lookup key) : map = other :=
  h.ext h' fun entry => by rw [← h.lookup_eq_some_iff, ← h'.lookup_eq_some_iff, hlookup]

theorem mem_of_mem_ofList {entries : List (String × α)} {entry : String × α}
    (h : entry ∈ ofList entries) : entry ∈ entries := by
  have step : ∀ (rest : List (String × α)) (map : KeyMap α), Sorted map →
      entry ∈ rest.foldl (fun map first => map.insert first.1 first.2) map →
        entry ∈ map ∨ entry ∈ rest := by
    intro rest
    induction rest with
    | nil => exact fun _ _ h => .inl h
    | cons first rest ih =>
      intro map hmap h
      rcases ih _ (sorted_alter _ _ hmap) h with h | h
      · rcases (mem_insert hmap).mp h with rfl | ⟨-, h⟩
        · exact .inr List.mem_cons_self
        · exact .inl h
      · exact .inr (List.mem_cons_of_mem _ h)
  exact (step entries [] List.Pairwise.nil h).resolve_left List.not_mem_nil

end KeyMap

namespace Condition

def isNested : Condition → Bool
  | nested _ => true
  | _ => false

/-- The keys of nested trees are sorted, at any depth. -/
inductive Ordered : Condition → Prop
  | leaf {c} : c.isNested = false → Ordered c
  | nested {tree} : KeyMap.Sorted tree → (∀ entry ∈ tree, entry.2.Ordered) → Ordered (.nested tree)

mutual

theorem ordered_ofValue (value : Value) : (ofValue value).Ordered := by
  match value with
  | .atom a => exact .leaf rfl
  | .array items => exact .leaf rfl
  | .scopedCode source scope => exact .leaf rfl
  | .document fields =>
    rw [ofValue]
    split
    · exact .leaf rfl
    · exact .nested (KeyMap.sorted_ofList _) fun entry he =>
        ordered_ofFields fields entry (KeyMap.mem_of_mem_ofList he)

theorem ordered_ofFields (fields : List (String × Value)) :
    ∀ entry ∈ ofFields fields, entry.2.Ordered := by
  match fields with
  | [] => exact nofun
  | (key, value) :: rest =>
    rw [ofFields]
    intro entry he
    rcases List.mem_cons.mp he with rfl | he
    · exact ordered_ofValue value
    · exact ordered_ofFields rest entry he

end

@[simp] theorem mergeOnto_none (c : Condition) : c.mergeOnto none = c := by
  cases c <;> rfl

theorem mergeOnto_leaf {c : Condition} (h : c.isNested = false) (present : Option Condition) :
    c.mergeOnto present = c := by
  cases c with
  | nested tree => cases h
  | _ => rfl

end Condition

namespace Tree

def Ordered (tree : Tree) : Prop := (Condition.nested tree).Ordered

variable {tree added : Tree}

theorem Ordered.sorted (h : tree.Ordered) : KeyMap.Sorted tree := by
  cases h with
  | leaf hleaf => cases hleaf
  | nested hsorted _ => exact hsorted

theorem Ordered.of_mem (h : tree.Ordered) {entry : String × Condition} (he : entry ∈ tree) :
    entry.2.Ordered := by
  cases h with
  | leaf hleaf => cases hleaf
  | nested _ hentries => exact hentries entry he

theorem Ordered.of_lookup (h : tree.Ordered) {key : String} {c : Condition}
    (hc : tree.lookup key = some c) : c.Ordered :=
  h.of_mem (h.sorted.lookup_eq_some_iff.mp hc)

theorem ordered_ofDocument (doc : Document) : (ofDocument doc).Ordered :=
  .nested (KeyMap.sorted_ofList _) fun entry he =>
    Condition.ordered_ofFields doc entry (KeyMap.mem_of_mem_ofList he)

theorem ordered_single {key : String} {c : Condition} (h : c.Ordered) :
    Tree.Ordered [(key, c)] := by
  refine .nested (List.pairwise_singleton _ _) fun entry he => ?_
  rw [List.mem_singleton.mp he]
  exact h

theorem sorted_mergeEntries (entries : List (String × Condition)) (h : KeyMap.Sorted tree) :
    KeyMap.Sorted (mergeEntries entries tree) := by
  induction entries generalizing tree with
  | nil => exact h
  | cons entry rest ih => exact ih (KeyMap.sorted_alter _ _ h)

theorem lookup_mergeEntries (hadded : KeyMap.Sorted added) (h : KeyMap.Sorted tree)
    (key : String) :
    (mergeEntries added tree).lookup key =
      match added.lookup key with
      | some c => some (c.mergeOnto (tree.lookup key))
      | none => tree.lookup key := by
  induction added generalizing tree with
  | nil => rfl
  | cons entry rest ih =>
    obtain ⟨k, c⟩ := entry
    obtain ⟨hfirst, hrest⟩ := List.pairwise_cons.mp hadded
    rw [mergeEntries, ih hrest (KeyMap.sorted_alter _ _ h), KeyMap.lookup_alter _ _ _ h,
      List.lookup_cons]
    by_cases hk : key = k
    · subst hk
      have hnone : rest.lookup key = none := KeyMap.lookup_eq_none_of_lt hfirst
      simp [hnone]
    · simp [hk, beq_false_of_ne hk]

theorem mergeEntries_nil (h : KeyMap.Sorted added) : mergeEntries added [] = added := by
  refine (sorted_mergeEntries added List.Pairwise.nil).ext_lookup h fun key => ?_
  rw [lookup_mergeEntries h List.Pairwise.nil]
  cases hc : added.lookup key with
  | none => rfl
  | some c => exact congrArg some c.mergeOnto_none

theorem mergeEntries_eq_nil_iff (hadded : KeyMap.Sorted added) (h : KeyMap.Sorted tree) :
    mergeEntries added tree = [] ↔ added = [] ∧ tree = [] := by
  refine ⟨fun hnil => ?_, ?_⟩
  · have hlookup := fun key => lookup_mergeEntries hadded h key
    simp only [hnil, List.lookup_nil] at hlookup
    have hnone : added = [] := by
      refine hadded.ext_lookup List.Pairwise.nil fun key => ?_
      cases hc : added.lookup key with
      | none => rfl
      | some c => exact absurd (hlookup key) (by simp [hc])
    refine ⟨hnone, h.ext_lookup List.Pairwise.nil fun key => ?_⟩
    simpa [hnone] using (hlookup key).symm
  · rintro ⟨rfl, rfl⟩
    rfl

end Tree

theorem Condition.Ordered.mergeOnto {c : Condition} (h : c.Ordered) {present : Option Condition}
    (hp : ∀ p ∈ present, p.Ordered) : (c.mergeOnto present).Ordered := by
  induction h generalizing present with
  | leaf hleaf =>
    rw [mergeOnto_leaf hleaf]
    exact .leaf hleaf
  | @nested added hsorted hentries ih =>
    have hadded : Tree.Ordered added := .nested hsorted hentries
    match present with
    | some (.nested tree) =>
      have htree : Tree.Ordered tree := hp _ rfl
      have hmerged := Tree.sorted_mergeEntries added htree.sorted
      refine .nested hmerged fun entry he => ?_
      have hlookup := hmerged.lookup_eq_some_iff.mpr he
      rw [Tree.lookup_mergeEntries hsorted htree.sorted] at hlookup
      split at hlookup
      · next c hc =>
        rw [← Option.some.inj hlookup]
        exact ih _ (hsorted.lookup_eq_some_iff.mp hc) fun p hp => htree.of_lookup hp
      · exact htree.of_lookup hlookup
    | none => exact hadded
    | some (.scalar _) => exact hadded
    | some (.list _) => exact hadded
    | some (.operators _) => exact hadded

namespace Tree

/-- A statement about the entries of a tree and its split holds if it does at the start and is kept
by every entry that is added. -/
theorem split_induction {motive : List (String × Condition) → Split → Prop} (tree : Tree)
    (nil : motive [] ⟨[], []⟩)
    (add : ∀ done entry rest split, tree = done ++ entry :: rest → motive done split →
      motive (done ++ [entry]) (split.add entry.1 entry.2)) : motive tree tree.split := by
  have step : ∀ (rest done : List (String × Condition)) (split : Split), tree = done ++ rest →
      motive done split →
      motive tree (rest.foldl (fun split entry => split.add entry.1 entry.2) split) := by
    intro rest
    induction rest with
    | nil =>
      intro done split htree h
      rw [List.append_nil] at htree
      exact htree ▸ h
    | cons entry rest ih =>
      intro done split htree h
      exact ih (done ++ [entry]) _ (by rw [htree, List.append_assoc]; rfl)
        (add done entry rest split htree h)
  exact step tree [] _ rfl nil

/-- What an entry says below a head, as a nested tree. -/
def contribution (head : String) (entry : String × Condition) : Option Condition :=
  match splitKey entry.1 with
  | some (first, tail) => if first = head then some (.nested [(tail, entry.2)]) else none
  | none => if entry.1 = head ∧ entry.2.isNested = true then some entry.2 else none

def mergeInto (present : Option Condition) (added : List Condition) : Option Condition :=
  added.foldl (fun present c => some (c.mergeOnto present)) present

/-- What the entries of a tree say below a head together. -/
def under (tree : Tree) (head : String) : Option Condition :=
  mergeInto none (tree.filterMap (contribution head))

theorem under_filter (tree : Tree) (head : String) :
    under (tree.filter fun entry => (contribution head entry).isSome) head = tree.under head := by
  unfold under
  rw [List.filterMap_filter]
  refine congrArg _ (List.filterMap_congr fun entry _ => ?_)
  cases contribution head entry <;> rfl

theorem under_congr {tree other : Tree} (h : KeyMap.Sorted tree) (h' : KeyMap.Sorted other)
    {head : String}
    (hmem : ∀ {entry c}, contribution head entry = some c → (entry ∈ tree ↔ entry ∈ other)) :
    tree.under head = other.under head := by
  rw [← under_filter tree, ← under_filter other]
  refine congrArg (under · head) (KeyMap.Sorted.ext (h.filter _) (h'.filter _) fun entry => ?_)
  rw [List.mem_filter, List.mem_filter]
  refine and_congr_left fun hsome => ?_
  obtain ⟨c, hc⟩ := Option.isSome_iff_exists.mp hsome
  exact hmem hc

end Tree

namespace Split

def under (split : Split) (head : String) : Option Condition :=
  (split.heads.lookup head).map .nested

theorem under_addBelow {split : Split} (h : KeyMap.Sorted split.heads) {below : Tree}
    (hbelow : KeyMap.Sorted below) (head k : String) :
    (split.addBelow head below).under k =
      if k = head then some ((Condition.nested below).mergeOnto (split.under head))
      else split.under k := by
  unfold under addBelow
  rw [KeyMap.lookup_alter _ _ _ h]
  split
  · cases hl : split.heads.lookup head with
    | none => exact congrArg (some ∘ Condition.nested) (Tree.mergeEntries_nil hbelow)
    | some present => rfl
  · rfl

theorem under_add {split : Split} (h : KeyMap.Sorted split.heads) {entry : String × Condition}
    (he : entry.2.Ordered) (k : String) :
    (split.add entry.1 entry.2).under k =
      match Tree.contribution k entry with
      | some c => some (c.mergeOnto (split.under k))
      | none => split.under k := by
  unfold add Tree.contribution
  cases hs : splitKey entry.1 with
  | some parts =>
    obtain ⟨head, tail⟩ := parts
    simp only
    rw [under_addBelow h (List.pairwise_singleton _ _)]
    by_cases hk : k = head
    · subst hk
      simp
    · simp [hk, Ne.symm hk]
  | none =>
    simp only
    split
    · next below heq =>
      rw [heq] at he ⊢
      rw [under_addBelow h (Tree.Ordered.sorted he)]
      by_cases hk : k = entry.1
      · subst hk
        simp [Condition.isNested]
      · simp [hk, Ne.symm hk]
    · next condition hnot =>
      have hleaf : entry.2.isNested = false := by
        cases hc : entry.2 with
        | nested below => exact (hnot below hc).elim
        | _ => rfl
      simp only [hleaf, Bool.false_eq_true, and_false, if_false]
      rfl

theorem add_ne_nil (split : Split) (key : String) (c : Condition) :
    (split.add key c).direct ≠ [] ∨ (split.add key c).heads ≠ [] := by
  unfold add
  split
  · exact .inr (KeyMap.alter_ne_nil _ _ _)
  · split
    · exact .inr (KeyMap.alter_ne_nil _ _ _)
    · exact .inl (KeyMap.alter_ne_nil _ _ _)

theorem sorted_add {split : Split} (key : String) (c : Condition)
    (h : KeyMap.Sorted split.heads ∧ KeyMap.Sorted split.direct) :
    KeyMap.Sorted (split.add key c).heads ∧ KeyMap.Sorted (split.add key c).direct := by
  unfold add
  split
  · exact ⟨KeyMap.sorted_alter _ _ h.1, h.2⟩
  · split
    · exact ⟨KeyMap.sorted_alter _ _ h.1, h.2⟩
    · exact ⟨h.1, KeyMap.sorted_alter _ _ h.2⟩

end Split

namespace Tree
variable {tree : Tree}

theorem sorted_split (tree : Tree) :
    KeyMap.Sorted tree.split.heads ∧ KeyMap.Sorted tree.split.direct :=
  tree.split_induction (motive := fun _ split =>
      KeyMap.Sorted split.heads ∧ KeyMap.Sorted split.direct)
    ⟨List.Pairwise.nil, List.Pairwise.nil⟩
    fun _ entry _ _ _ h => Split.sorted_add entry.1 entry.2 h

theorem split_under (h : tree.Ordered) (head : String) :
    tree.split.under head = tree.under head := by
  have hboth := tree.split_induction (motive := fun done split =>
      KeyMap.Sorted split.heads ∧ KeyMap.Sorted split.direct ∧
        split.under head = mergeInto none (done.filterMap (contribution head)))
    ⟨List.Pairwise.nil, List.Pairwise.nil, rfl⟩ ?_
  · exact hboth.2.2
  · rintro done entry rest split htree ⟨hheads, hdirect, hunder⟩
    have hentry : entry.2.Ordered := h.of_mem (by rw [htree]; simp)
    have hsorted := Split.sorted_add entry.1 entry.2 ⟨hheads, hdirect⟩
    refine ⟨hsorted.1, hsorted.2, ?_⟩
    rw [Split.under_add hheads hentry, hunder, List.filterMap_append]
    cases hc : contribution head entry with
    | none => simp [hc]
    | some c => simp [hc, mergeInto]

theorem mem_split_heads (h : tree.Ordered) {head : String} {below : Tree} :
    (head, below) ∈ tree.split.heads ↔ tree.under head = some (.nested below) := by
  rw [← split_under h, ← tree.sorted_split.1.lookup_eq_some_iff, Split.under,
    Option.map_eq_some_iff]
  simp

theorem mem_split_direct (h : KeyMap.Sorted tree) {entry : String × Condition} :
    entry ∈ tree.split.direct ↔
      entry ∈ tree ∧ splitKey entry.1 = none ∧ entry.2.isNested = false := by
  have hboth := tree.split_induction (motive := fun done split =>
      KeyMap.Sorted split.direct ∧ ∀ entry : String × Condition, entry ∈ split.direct ↔
        entry ∈ done ∧ splitKey entry.1 = none ∧ entry.2.isNested = false)
    ⟨List.Pairwise.nil, by simp⟩ ?_
  · exact hboth.2 entry
  · rintro done ⟨key, c⟩ rest split htree ⟨hsorted, hmem⟩
    unfold Split.add
    split
    · next hs => exact ⟨hsorted, fun e => by grind [Split.addBelow]⟩
    · next hs =>
      split
      · next below => exact ⟨hsorted, fun e => by grind [Split.addBelow, Condition.isNested]⟩
      · next hnot =>
        have hleaf : c.isNested = false := by
          cases c with
          | nested below => exact (hnot below rfl).elim
          | _ => rfl
        have hfresh : ∀ d, (key, d) ∉ done := by
          intro d hd
          rw [htree] at h
          exact String.lt_irrefl key ((List.pairwise_append.mp h).2.2 _ hd _ List.mem_cons_self)
        refine ⟨KeyMap.sorted_alter _ _ hsorted, fun e => ?_⟩
        rw [KeyMap.mem_insert hsorted, hmem, List.mem_append, List.mem_singleton]
        refine ⟨?_, ?_⟩
        · rintro (rfl | ⟨-, hdone, hrest⟩)
          · exact ⟨.inr rfl, hs, hleaf⟩
          · exact ⟨.inl hdone, hrest⟩
        · rintro ⟨hdone | rfl, hrest⟩
          · refine .inr ⟨fun hk => hfresh e.2 ?_, hdone, hrest⟩
            rwa [show (key, e.2) = e from Prod.ext hk.symm rfl]
          · exact .inl rfl

@[simp] theorem isEmpty_outline (tree : Tree) : tree.outline.isEmpty = tree.isEmpty := by
  have hsplit : (tree.split.direct.isEmpty && tree.split.heads.isEmpty) = tree.isEmpty := by
    refine tree.split_induction (motive := fun done split =>
      (split.direct.isEmpty && split.heads.isEmpty) = done.isEmpty) rfl ?_
    intro done entry rest split _ _
    have hdone : (done ++ [entry]).isEmpty = false := by simp
    rw [hdone, Bool.and_eq_false_iff, List.isEmpty_eq_false_iff, List.isEmpty_eq_false_iff]
    exact split.add_ne_nil entry.1 entry.2
  rw [outline_eq, Outline.isEmpty, Outline.direct, Outline.heads, List.isEmpty_map, hsplit]

end Tree
end AccessRules
