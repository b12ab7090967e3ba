import AccessRules.Proofs.Grouping
import AccessRules.Proofs.Literal
import Mathlib.Data.List.Induction

/-! What condition trees say, path by path. Whatever a tree says after merging and splitting, some
entry of it said at the same path before. -/
namespace AccessRules

theorem splitKey_append {head : String} (hdot : '.' ∉ head.toList)
    (ht : Operator.isToken head = false) (tail : String) :
    splitKey (head ++ "." ++ tail) = some (head, tail) := by
  have hbefore : ∀ c ∈ head.toList, decide (c ≠ '.') = true := fun c hc => by
    simpa using fun heq : c = '.' => hdot (heq ▸ hc)
  have hchars : (head ++ "." ++ tail).toList = head.toList ++ '.' :: tail.toList := by
    simp [String.toList_append]
  unfold splitKey
  rw [Operator.isToken_append, ht, if_neg Bool.false_ne_true, hchars,
    List.dropWhile_append_of_pos hbefore, List.takeWhile_append_of_pos hbefore]
  simp

theorem splitKey_eq_some_iff {key head tail : String} :
    splitKey key = some (head, tail) ↔
      key = head ++ "." ++ tail ∧ '.' ∉ head.toList ∧ Operator.isToken head = false := by
  refine ⟨fun h => ?_, fun ⟨hkey, hdot, ht⟩ => hkey ▸ splitKey_append hdot ht tail⟩
  have htoken : Operator.isToken key = false := by
    unfold splitKey at h
    by_contra htoken
    rw [if_pos (by simpa using htoken)] at h
    cases h
  have hmem : '.' ∈ key.toList := by
    by_contra hnot
    unfold splitKey at h
    rw [if_neg (by simp [htoken])] at h
    split at h
    · next dot rest hs =>
      have hnil : key.toList.dropWhile (· ≠ '.') = [] :=
        List.dropWhile_eq_nil_iff.mpr fun c hc => by
          simpa using fun heq : c = '.' => hnot (heq ▸ hc)
      rw [hnil] at hs
      cases hs
    · cases h
  obtain ⟨first, rest, hkey, hdot⟩ := exists_head_of_dot hmem
  have ht : Operator.isToken first = false := by
    rw [← Operator.isToken_append first rest, ← hkey]
    exact htoken
  rw [hkey, splitKey_append hdot ht] at h
  cases h
  exact ⟨hkey, hdot, ht⟩

/-- The fields that a key leads through: it is split at its dots, up to a segment that starts an
operator. -/
def keyPath (key : String) : List String :=
  match hkey : splitKey key with
  | none => [key]
  | some (head, tail) =>
    have : segmentCount tail < segmentCount key := by
      have := splitKey_segments hkey
      omega
    head :: keyPath tail
termination_by segmentCount key

theorem keyPath_undivided {key : String} (h : splitKey key = none) : keyPath key = [key] := by
  rw [keyPath]
  split <;> simp_all

theorem keyPath_split {key head tail : String} (h : splitKey key = some (head, tail)) :
    keyPath key = head :: keyPath tail := by
  rw [keyPath]
  split <;> simp_all

theorem keyPath_ne_nil (key : String) : keyPath key ≠ [] := by
  rw [keyPath]
  split <;> simp

mutual

/-- What a condition says at each path, where `path` reads keys: a condition, or none at a nested
tree that has entries. A nested tree without entries is a condition itself. -/
def Condition.placesBy {σ : Type} (path : String → List σ) :
    Condition → List (List σ × Option Condition)
  | .nested tree =>
    if tree.isEmpty then [([], some (.nested []))] else ([], none) :: Tree.placesBy path tree
  | c => [([], some c)]

def Tree.placesBy {σ : Type} (path : String → List σ) :
    List (String × Condition) → List (List σ × Option Condition)
  | [] => []
  | (key, c) :: rest =>
    (c.placesBy path).map (fun place => (path key ++ place.1, place.2)) ++ Tree.placesBy path rest

end

def Tree.leavesBy (path : String → List String) (tree : Tree) : List (List String × Condition) :=
  (Tree.placesBy path tree).filterMap fun place => place.2.map (place.1, ·)

def Condition.places (c : Condition) : List (List String × Option Condition) := c.placesBy keyPath

def Tree.places (tree : Tree) : List (List String × Option Condition) := Tree.placesBy keyPath tree

def Tree.leaves (tree : Tree) : List (List String × Condition) := tree.leavesBy keyPath

def Condition.leaves (c : Condition) : List (List String × Condition) :=
  c.places.filterMap fun place => place.2.map (place.1, ·)

section Places
variable {σ : Type} {path : String → List σ} {tree : Tree} {c : Condition} {p : List σ}
  {a : Option Condition}

theorem Tree.mem_placesBy :
    (p, a) ∈ Tree.placesBy path tree ↔
      ∃ key c q, (key, c) ∈ tree ∧ (q, a) ∈ c.placesBy path ∧ p = path key ++ q := by
  induction tree with
  | nil => simp [placesBy]
  | cons entry rest ih =>
    obtain ⟨k, d⟩ := entry
    rw [placesBy, List.mem_append, ih, List.mem_map]
    refine ⟨?_, ?_⟩
    · rintro (⟨⟨q, b⟩, hq, heq⟩ | ⟨key, c, q, hmem, hq, rfl⟩)
      · cases heq
        exact ⟨k, d, q, List.mem_cons_self, hq, rfl⟩
      · exact ⟨key, c, q, List.mem_cons_of_mem _ hmem, hq, rfl⟩
    · rintro ⟨key, c, q, hmem, hq, rfl⟩
      rcases List.mem_cons.mp hmem with heq | hmem
      · cases heq
        exact .inl ⟨_, hq, rfl⟩
      · exact .inr ⟨key, c, q, hmem, hq, rfl⟩

theorem mem_filterMap_leaf {places : List (List σ × Option Condition)} :
    (p, c) ∈ places.filterMap (fun place => place.2.map (place.1, ·)) ↔ (p, some c) ∈ places := by
  rw [List.mem_filterMap]
  refine ⟨?_, fun h => ⟨_, h, rfl⟩⟩
  rintro ⟨⟨q, a⟩, hq, heq⟩
  cases a with
  | none => cases heq
  | some d =>
    cases heq
    exact hq

namespace Condition

theorem placesBy_leaf (h : c.isNested = false) : c.placesBy path = [([], some c)] := by
  cases c with
  | nested tree => cases h
  | _ => simp [placesBy]

@[simp] theorem placesBy_empty : (nested []).placesBy path = [([], some (.nested []))] := by
  simp [placesBy]

theorem placesBy_nested (h : tree ≠ []) :
    (nested tree).placesBy path = ([], none) :: Tree.placesBy path tree := by
  simp [placesBy, List.isEmpty_eq_false_iff.mpr h]

theorem mem_placesBy_nil (h : c.isNested = false ∨ c = .nested []) :
    (p, a) ∈ c.placesBy path ↔ p = [] ∧ a = some c := by
  rcases h with h | rfl
  · rw [placesBy_leaf h, List.mem_singleton, Prod.mk.injEq]
  · rw [placesBy_empty, List.mem_singleton, Prod.mk.injEq]

theorem mem_placesBy_nested (h : tree ≠ []) :
    (p, a) ∈ (nested tree).placesBy path ↔
      p = [] ∧ a = none ∨ (p, a) ∈ Tree.placesBy path tree := by
  rw [placesBy_nested h, List.mem_cons, Prod.mk.injEq]

theorem mem_placesBy_mergeOnto (h : c.Ordered) {present : Option Condition}
    (hp : ∀ d ∈ present, d.Ordered) (hm : (p, a) ∈ (c.mergeOnto present).placesBy path) :
    (p, a) ∈ c.placesBy path ∨ ∃ d ∈ present, (p, a) ∈ d.placesBy path := by
  induction h generalizing present p with
  | leaf hleaf =>
    rw [mergeOnto_leaf hleaf] at hm
    exact .inl hm
  | @nested added hsorted hentries ih =>
    match present with
    | none => exact .inl hm
    | some (.scalar _) => exact .inl hm
    | some (.list _) => exact .inl hm
    | some (.operators _) => exact .inl hm
    | some (.nested tree) =>
      have htree : Tree.Ordered tree := hp _ rfl
      change (p, a) ∈ (nested (Tree.mergeEntries added tree)).placesBy path at hm
      by_cases hnil : Tree.mergeEntries added tree = []
      · rw [hnil] at hm
        rw [((Tree.mergeEntries_eq_nil_iff hsorted htree.sorted).mp hnil).1]
        exact .inl hm
      · rw [mem_placesBy_nested hnil] at hm
        rcases hm with ⟨rfl, rfl⟩ | hm
        · -- a merge has entries where one of the two has
          by_cases hadded : added = []
          · subst hadded
            exact .inr ⟨_, rfl, (mem_placesBy_nested hnil).mpr (.inl ⟨rfl, rfl⟩)⟩
          · exact .inl ((mem_placesBy_nested hadded).mpr (.inl ⟨rfl, rfl⟩))
        · obtain ⟨key, d, q, hmem, hq, rfl⟩ := Tree.mem_placesBy.mp hm
          have hmerged := Tree.sorted_mergeEntries added htree.sorted
          have hlookup := hmerged.lookup_eq_some_iff.mpr hmem
          rw [Tree.lookup_mergeEntries hsorted htree.sorted] at hlookup
          have hright : ∀ {e}, tree.lookup key = some e → (q, a) ∈ e.placesBy path →
              ∃ d ∈ some (nested tree), (path key ++ q, a) ∈ d.placesBy path := by
            intro e he hq
            have hmem := htree.sorted.lookup_eq_some_iff.mp he
            exact ⟨_, rfl, (mem_placesBy_nested (List.ne_nil_of_mem hmem)).mpr
              (.inr (Tree.mem_placesBy.mpr ⟨key, e, q, hmem, hq, rfl⟩))⟩
          split at hlookup
          · next e he =>
            have hmem := hsorted.lookup_eq_some_iff.mp he
            rw [← Option.some.inj hlookup] at hq
            rcases ih _ hmem (fun d hd => htree.of_lookup hd) hq with hq | ⟨d, hd, hq⟩
            · exact .inl ((mem_placesBy_nested (List.ne_nil_of_mem hmem)).mpr
                (.inr (Tree.mem_placesBy.mpr ⟨key, e, q, hmem, hq, rfl⟩)))
            · exact .inr (hright hd hq)
          · exact .inr (hright hlookup hq)

end Condition

namespace Tree

@[simp] theorem mergeInto_append_singleton (present : Option Condition) (cs : List Condition)
    (c : Condition) :
    mergeInto present (cs ++ [c]) = some (c.mergeOnto (mergeInto present cs)) := by
  simp [mergeInto]

@[simp] theorem mergeInto_eq_none_iff {cs : List Condition} :
    mergeInto none cs = none ↔ cs = [] := by
  cases cs using List.reverseRecOn with
  | nil => exact ⟨fun _ => rfl, fun _ => rfl⟩
  | append_singleton cs c => simp [mergeInto_append_singleton]

theorem ordered_contribution {tree : Tree} (h : tree.Ordered) {head : String} :
    ∀ c ∈ tree.filterMap (contribution head), c.Ordered := by
  intro c hc
  obtain ⟨entry, he, hcontribution⟩ := List.mem_filterMap.mp hc
  have hentry := h.of_mem he
  unfold contribution at hcontribution
  split at hcontribution
  · split at hcontribution
    · cases hcontribution
      exact ordered_single hentry
    · cases hcontribution
  · split at hcontribution
    · cases hcontribution
      exact hentry
    · cases hcontribution

theorem ordered_mergeInto {cs : List Condition} (h : ∀ c ∈ cs, c.Ordered) :
    ∀ c ∈ mergeInto none cs, c.Ordered := by
  induction cs using List.reverseRecOn with
  | nil => exact nofun
  | append_singleton cs c ih =>
    intro d hd
    rw [mergeInto_append_singleton] at hd
    cases hd
    exact (h c (by simp)).mergeOnto (ih fun e he => h e (List.mem_append_left _ he))

theorem mem_placesBy_mergeInto {cs : List Condition} (h : ∀ c ∈ cs, c.Ordered) {d : Condition}
    (hd : mergeInto none cs = some d) (hp : (p, a) ∈ d.placesBy path) :
    ∃ c ∈ cs, (p, a) ∈ c.placesBy path := by
  induction cs using List.reverseRecOn generalizing d with
  | nil => cases hd
  | append_singleton cs c ih =>
    have hcs : ∀ e ∈ cs, e.Ordered := fun e he => h e (List.mem_append_left _ he)
    rw [mergeInto_append_singleton] at hd
    cases hd
    rcases Condition.mem_placesBy_mergeOnto (h c (by simp)) (ordered_mergeInto hcs) hp with
      hp | ⟨e, he, hp⟩
    · exact ⟨c, by simp, hp⟩
    · obtain ⟨f, hf, hp⟩ := ih hcs he hp
      exact ⟨f, List.mem_append_left _ hf, hp⟩

/-- Paths that begin with the head of a key, which may depend on whether the key goes on. -/
structure Leads (path : String → List σ) (segment : Bool → String → σ) : Prop where
  undivided : ∀ {key}, splitKey key = none → path key = [segment false key]
  divided : ∀ {key head tail}, splitKey key = some (head, tail) →
    path key = segment true head :: path tail

variable {segment : Bool → String → σ} {head : String}

/-- An entry says below its head what it says at all, except that a divided key puts its head
there as well. -/
theorem mem_placesBy_contribution (hl : Leads path segment) {entry : String × Condition}
    (hc : contribution head entry = some c) (hp : (p, a) ∈ c.placesBy path) :
    (∃ divided q, (q, a) ∈ entry.2.placesBy path ∧ segment divided head :: p = path entry.1 ++ q) ∨
      p = [] ∧ a = none := by
  unfold contribution at hc
  split at hc
  · next first tail hs =>
    split at hc
    · next heq =>
      cases hc
      subst heq
      rw [Condition.mem_placesBy_nested (List.cons_ne_nil _ _)] at hp
      rcases hp with hp | hp
      · exact .inr hp
      · obtain ⟨key, d, q, hmem, hq, rfl⟩ := mem_placesBy.mp hp
        cases List.mem_singleton.mp hmem
        exact .inl ⟨true, q, hq, by rw [hl.divided hs]; rfl⟩
    · cases hc
  · next hs =>
    split at hc
    · next heq =>
      cases hc
      exact .inl ⟨false, p, hp, by rw [hl.undivided hs, heq.1]; rfl⟩
    · cases hc

theorem ordered_under {tree : Tree} (h : tree.Ordered) {c : Condition}
    (hc : tree.under head = some c) : c.Ordered :=
  ordered_mergeInto (ordered_contribution h) c hc

theorem mem_placesBy_under (hl : Leads path segment) (h : tree.Ordered)
    (hc : tree.under head = some c) (hp : (p, a) ∈ c.placesBy path) :
    (∃ divided, (segment divided head :: p, a) ∈ placesBy path tree) ∨ p = [] ∧ a = none := by
  obtain ⟨d, hd, hp⟩ := mem_placesBy_mergeInto (ordered_contribution h) hc hp
  obtain ⟨entry, he, hcontribution⟩ := List.mem_filterMap.mp hd
  rcases mem_placesBy_contribution hl hcontribution hp with ⟨divided, q, hq, heq⟩ | hp
  · exact .inl ⟨divided, mem_placesBy.mpr ⟨entry.1, entry.2, q, he, hq, heq⟩⟩
  · exact .inr hp

end Tree
end Places

section Paths
variable {path : String → List String} {tree : Tree} {c : Condition} {p : List String}
  {a : Option Condition}

@[simp] theorem Tree.mem_leavesBy :
    (p, c) ∈ Tree.leavesBy path tree ↔ (p, some c) ∈ placesBy path tree :=
  mem_filterMap_leaf

@[simp] theorem Condition.mem_leaves {d : Condition} : (p, d) ∈ c.leaves ↔ (p, some d) ∈ c.places :=
  mem_filterMap_leaf

namespace Tree

theorem mem_places :
    (p, a) ∈ tree.places ↔
      ∃ key c q, (key, c) ∈ tree ∧ (q, a) ∈ c.places ∧ p = keyPath key ++ q :=
  mem_placesBy

theorem mem_leaves : (p, c) ∈ tree.leaves ↔ (p, some c) ∈ tree.places := mem_leavesBy

theorem leads_keyPath : Leads keyPath fun _ head => head :=
  ⟨keyPath_undivided, keyPath_split⟩

theorem mem_places_contribution {entry : String × Condition} {head : String}
    (hc : contribution head entry = some c) (hp : (p, a) ∈ c.places) :
    (∃ q, (q, a) ∈ entry.2.places ∧ head :: p = keyPath entry.1 ++ q) ∨ p = [] ∧ a = none :=
  (mem_placesBy_contribution leads_keyPath hc hp).imp_left fun ⟨_, h⟩ => h

theorem mem_places_under {tree : Tree} (h : tree.Ordered) {head : String}
    (hc : tree.under head = some c) (hp : (p, a) ∈ c.places) :
    (head :: p, a) ∈ tree.places ∨ p = [] ∧ a = none :=
  (mem_placesBy_under leads_keyPath h hc hp).imp_left fun ⟨_, h⟩ => h

theorem isSome_under {tree : Tree} {head : String} :
    (tree.under head).isSome = true ↔
      ∃ entry ∈ tree, ∃ c, contribution head entry = some c := by
  rw [Option.isSome_iff_ne_none, under, ne_eq, mergeInto_eq_none_iff]
  refine ⟨fun hne => ?_, fun ⟨entry, he, c, hc⟩ => ?_⟩
  · obtain ⟨c, hc⟩ := List.exists_mem_of_ne_nil _ hne
    obtain ⟨entry, he, hc⟩ := List.mem_filterMap.mp hc
    exact ⟨entry, he, c, hc⟩
  · exact List.ne_nil_of_mem (List.mem_filterMap.mpr ⟨entry, he, hc⟩)

end Tree
end Paths
end AccessRules
