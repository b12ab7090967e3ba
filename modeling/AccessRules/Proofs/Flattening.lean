import AccessRules.Proofs.Join
import AccessRules.Proofs.Places

/-! Flat trees, which have conditions for entries, and empty trees that nothing else leads into.
Splitting a flat tree all the way down keeps its entries: they are the conditions of its outline by
their dotted paths. -/
namespace AccessRules

namespace KeyMap
variable {α β : Type} {f : Option α → α} {key : String} {map : KeyMap α}

theorem flatMap_alter_perm {g : String × α → List β} {extra : List β}
    (hnone : (g (key, f none)).Perm extra)
    (hsome : ∀ value, (key, value) ∈ map →
      (g (key, f (some value))).Perm (extra ++ g (key, value))) :
    ((alter f key map).flatMap g).Perm (extra ++ map.flatMap g) := by
  induction map with
  | nil => simpa [alter] using hnone
  | cons entry rest ih =>
    obtain ⟨k, v⟩ := entry
    rw [List.flatMap_cons, ← List.append_assoc]
    unfold alter
    split
    · next heq =>
      subst heq
      exact (hsome v List.mem_cons_self).append_right _
    · split
      · rw [List.flatMap_cons, List.flatMap_cons, ← List.append_assoc]
        exact (hnone.append_right _).append_right _
      · rw [List.flatMap_cons]
        refine ((ih fun value hv => hsome value (List.mem_cons_of_mem _ hv)).append_left _).trans ?_
        rw [← List.append_assoc]
        exact List.perm_append_comm.append_right _

theorem eq_of_mem_alter {entry : String × α} (h : entry ∈ alter f key map) :
    entry ∈ map ∨ entry = (key, f none) ∨ ∃ value, (key, value) ∈ map ∧
      entry = (key, f (some value)) := by
  induction map with
  | nil => simp_all [alter]
  | cons first rest ih => grind [alter]

theorem alter_perm (h : ∀ value, (key, value) ∉ map) :
    (alter f key map).Perm ((key, f none) :: map) := by
  have hperm := flatMap_alter_perm (f := f) (g := fun entry => [entry]) (List.Perm.refl _)
    fun value hv => absurd hv (h value)
  rwa [List.flatMap_singleton', List.flatMap_singleton'] at hperm

theorem ofList_perm {entries : List (String × α)} (h : (entries.map (·.1)).Nodup) :
    (ofList entries).Perm entries := by
  have step : ∀ (rest : List (String × α)) (map : KeyMap α), (rest.map (·.1)).Nodup →
      (∀ entry ∈ rest, ∀ value, (entry.1, value) ∉ map) →
      (rest.foldl (fun map entry => map.insert entry.1 entry.2) map).Perm (map ++ rest) := by
    intro rest
    induction rest with
    | nil =>
      intro map _ _
      rw [List.append_nil, List.foldl_nil]
    | cons entry rest ih =>
      intro map hnodup hfresh
      rw [List.map_cons, List.nodup_cons] at hnodup
      have hinserted : (map.insert entry.1 entry.2).Perm (entry :: map) :=
        alter_perm (hfresh entry List.mem_cons_self)
      refine (ih _ hnodup.2 fun e he value hv => ?_).trans ?_
      · rcases List.mem_cons.mp (hinserted.mem_iff.mp hv) with heq | hv
        · exact hnodup.1 (List.mem_map.mpr ⟨e, he, congrArg (·.1) heq⟩)
        · exact hfresh e (List.mem_cons_of_mem _ he) value hv
      · exact (hinserted.append_right rest).trans List.perm_middle.symm
  exact step entries [] h fun _ _ _ => List.not_mem_nil

end KeyMap

namespace Split

/-- The entries that a head stands for. Where nothing is below it, it is an entry itself. -/
def headEntries (head : String × Tree) : List (String × Condition) :=
  if head.2.isEmpty then [(head.1, .nested [])]
  else head.2.map fun entry => (head.1 ++ "." ++ entry.1, entry.2)

def entries (split : Split) : List (String × Condition) :=
  split.direct ++ split.heads.flatMap headEntries

theorem headEntries_of_ne_nil {below : Tree} (h : below ≠ []) (head : String) :
    headEntries (head, below) = below.map fun entry => (head ++ "." ++ entry.1, entry.2) :=
  if_neg (by simpa using h)

theorem headEntries_perm {below more : Tree} {entry : String × Condition} (h : below ≠ [])
    (hmore : more.Perm (entry :: below)) (head : String) :
    (headEntries (head, more)).Perm
      ((head ++ "." ++ entry.1, entry.2) :: headEntries (head, below)) := by
  have hne : more ≠ [] := fun hnil => by
    rw [hnil] at hmore
    exact List.cons_ne_nil _ _ (List.nil_perm.mp hmore)
  rw [headEntries_of_ne_nil h, headEntries_of_ne_nil hne]
  exact hmore.map _

theorem entries_addBelow {split : Split} {head : String} {below : Tree}
    {entry : String × Condition}
    (hnone : headEntries (head, Tree.mergeEntries below []) = [entry])
    (hsome : ∀ present, (head, present) ∈ split.heads →
      (headEntries (head, Tree.mergeEntries below present)).Perm
        (entry :: headEntries (head, present))) :
    (split.addBelow head below).entries.Perm (entry :: split.entries) := by
  have hheads : ((split.addBelow head below).heads.flatMap headEntries).Perm
      ([entry] ++ split.heads.flatMap headEntries) :=
    KeyMap.flatMap_alter_perm (by rw [← hnone]; rfl) hsome
  exact (hheads.append_left split.direct).trans List.perm_middle

theorem entries_insert {split : Split} {key : String} {c : Condition}
    (h : ∀ value, (key, value) ∉ split.direct) :
    (entries { split with direct := split.direct.insert key c }).Perm
      ((key, c) :: split.entries) :=
  (KeyMap.alter_perm h).append_right _

end Split

/-- A sorted tree of conditions and of empty trees, no other entry being below one of those. -/
structure Tree.Flat (tree : Tree) : Prop where
  sorted : KeyMap.Sorted tree
  empty : ∀ entry ∈ tree, entry.2.isNested = true → entry.2 = .nested []
  apart : ∀ x ∈ tree, x.2.isNested = true → ∀ y ∈ tree, keyPath x.1 <+: keyPath y.1 → x.1 = y.1

namespace Tree.Flat
variable {tree : Tree}

theorem fresh (h : tree.Flat) {done rest : List (String × Condition)} {key : String}
    {c : Condition} (htree : tree = done ++ (key, c) :: rest) (d : Condition) :
    (key, d) ∉ done := by
  intro hd
  have hsorted := h.sorted
  rw [htree] at hsorted
  exact String.lt_irrefl key ((List.pairwise_append.mp hsorted).2.2 _ hd _ List.mem_cons_self)

theorem split_ne (h : tree.Flat) {head tail key : String} {c : Condition}
    (hempty : (head, .nested []) ∈ tree) (hentry : (key, c) ∈ tree) :
    splitKey key ≠ some (head, tail) := by
  intro hs
  have heq : head = key := h.apart _ hempty rfl _ hentry (by
    rw [keyPath_undivided (splitKey_head hs), keyPath_split hs]
    exact List.prefix_append [head] _)
  rw [← heq, splitKey_head hs] at hs
  cases hs

section Add
variable {done rest : List (String × Condition)} {split : Split} {key : String} {c : Condition}

theorem entries_add (h : tree.Flat) (htree : tree = done ++ (key, c) :: rest)
    (hperm : split.entries.Perm done)
    (hfields : ∀ head ∈ split.heads, head.2 ≠ [] → FieldName head.1) :
    (split.add key c).entries.Perm ((key, c) :: split.entries) := by
  have hmem : ∀ e ∈ split.entries, e ∈ tree := fun e he => by
    rw [htree]
    exact List.mem_append_left _ (hperm.mem_iff.mp he)
  have hentry : (key, c) ∈ tree := by simp [htree]
  have hfresh : ∀ d, (key, d) ∉ split.entries := fun d hd =>
    h.fresh htree d (hperm.mem_iff.mp hd)
  have hhead : ∀ {head e}, head ∈ split.heads → e ∈ Split.headEntries head → e ∈ split.entries :=
    fun hh he => List.mem_append_right _ (List.mem_flatMap.mpr ⟨_, hh, he⟩)
  unfold Split.add
  split
  · next head tail hs =>
    obtain ⟨rfl, -, -⟩ := splitKey_eq_some_iff.mp hs
    refine Split.entries_addBelow ?_ fun below hb => ?_
    · exact congrArg (fun d => [(head ++ "." ++ tail, d)]) c.mergeOnto_none
    · have hne : below ≠ [] := by
        rintro rfl
        exact h.split_ne (hmem _ (hhead hb List.mem_cons_self)) hentry hs
      have htail : ∀ d, (tail, d) ∉ below := by
        intro d hd
        refine hfresh d (hhead hb ?_)
        rw [Split.headEntries_of_ne_nil hne]
        exact List.mem_map.mpr ⟨_, hd, rfl⟩
      have hmerged : (Tree.mergeEntries [(tail, c)] below).Perm ((tail, c) :: below) := by
        have hperm := KeyMap.alter_perm (f := c.mergeOnto) htail
        rwa [c.mergeOnto_none] at hperm
      exact Split.headEntries_perm hne hmerged head
  · next hs =>
    split
    · next below =>
      cases h.empty _ hentry rfl
      refine Split.entries_addBelow rfl fun present hp => ?_
      -- the key is no head yet, neither by itself nor through a divided key
      exfalso
      by_cases hne : present = []
      · subst hne
        exact hfresh _ (hhead hp List.mem_cons_self)
      · obtain ⟨e, he⟩ := List.exists_mem_of_ne_nil _ hne
        have hfield := hfields _ hp hne
        have hbelow := hmem (key ++ "." ++ e.1, e.2) (hhead hp (by
          rw [Split.headEntries_of_ne_nil hne]
          exact List.mem_map.mpr ⟨e, he, rfl⟩))
        exact h.split_ne hentry hbelow (splitKey_append hfield.noDot hfield.noToken e.1)
    · exact Split.entries_insert fun value hv => hfresh value (List.mem_append_left _ hv)

theorem fields_add (h : tree.Flat) (hentry : (key, c) ∈ tree)
    (hfields : ∀ head ∈ split.heads, head.2 ≠ [] → FieldName head.1) :
    ∀ head ∈ (split.add key c).heads, head.2 ≠ [] → FieldName head.1 := by
  unfold Split.add
  split
  · next head tail hs =>
    intro entry he hne
    rcases KeyMap.mem_of_mem_alter he with heq | he
    · rw [heq]
      obtain ⟨-, hdot, ht⟩ := splitKey_eq_some_iff.mp hs
      exact ⟨ht, hdot⟩
    · exact hfields entry he hne
  · split
    · next below =>
      cases h.empty _ hentry rfl
      intro entry he hne
      rcases KeyMap.eq_of_mem_alter he with he | rfl | ⟨present, hp, rfl⟩
      · exact hfields entry he hne
      · exact absurd rfl hne
      · exact hfields _ hp hne
    · exact hfields

end Add

/-- The split of a flat tree stands for the entries of the tree, and whatever leads further below a
head is named by a field. -/
theorem split_perm (h : tree.Flat) :
    tree.split.entries.Perm tree ∧ ∀ head ∈ tree.split.heads, head.2 ≠ [] → FieldName head.1 := by
  refine tree.split_induction (motive := fun done split => split.entries.Perm done ∧
    ∀ head ∈ split.heads, head.2 ≠ [] → FieldName head.1) ⟨List.Perm.refl _, by simp⟩ ?_
  rintro done ⟨key, c⟩ rest split htree ⟨hperm, hfields⟩
  refine ⟨?_, h.fields_add (by simp [htree]) hfields⟩
  exact ((h.entries_add htree hperm hfields).trans (hperm.cons _)).trans
    (List.perm_append_singleton _ _).symm

theorem mem_of_head (h : tree.Flat) {head : String × Tree} (hh : head ∈ tree.split.heads)
    {entry : String × Condition} (he : entry ∈ Split.headEntries head) : entry ∈ tree :=
  h.split_perm.1.mem_iff.mp (List.mem_append_right _ (List.mem_flatMap.mpr ⟨head, hh, he⟩))

theorem ordered (h : tree.Flat) : tree.Ordered := by
  refine .nested h.sorted fun entry he => ?_
  cases hc : entry.2.isNested with
  | false => exact .leaf hc
  | true =>
    rw [h.empty entry he hc]
    exact .nested List.Pairwise.nil nofun

theorem mem_below (h : tree.Flat) {head : String} {below : Tree}
    (hb : (head, below) ∈ tree.split.heads) {entry : String × Condition} (he : entry ∈ below) :
    (head ++ "." ++ entry.1, entry.2) ∈ tree ∧
      splitKey (head ++ "." ++ entry.1) = some (head, entry.1) := by
  have hne := List.ne_nil_of_mem he
  have hfield := h.split_perm.2 _ hb hne
  refine ⟨h.mem_of_head hb ?_, splitKey_append hfield.noDot hfield.noToken _⟩
  rw [Split.headEntries_of_ne_nil hne]
  exact List.mem_map.mpr ⟨entry, he, rfl⟩

theorem below (h : tree.Flat) {head : String} {below : Tree}
    (hb : (head, below) ∈ tree.split.heads) : below.Flat where
  sorted := Ordered.sorted (ordered_under h.ordered ((mem_split_heads h.ordered).mp hb))
  empty := fun entry he hn => h.empty (head ++ "." ++ entry.1, entry.2) (h.mem_below hb he).1 hn
  apart := by
    intro x hx hn y hy hprefix
    obtain ⟨hxtree, hxsplit⟩ := h.mem_below hb hx
    obtain ⟨hytree, hysplit⟩ := h.mem_below hb hy
    have heq := h.apart _ hxtree hn _ hytree (by
      rw [keyPath_split hxsplit, keyPath_split hysplit]
      exact List.cons_prefix_cons.mpr ⟨rfl, hprefix⟩)
    simpa using heq

end Tree.Flat

/-- The conditions in the outline of a flat tree are its entries. -/
theorem Tree.Flat.perm_leaves {tree : Tree} (h : tree.Flat) :
    tree.outline.leaves.Perm (tree.map fun entry => (entry.1, entry.2.toValue)) := by
  induction tree using Tree.outline.induct with
  | case1 tree ih =>
    have hhead : ∀ head ∈ tree.split.heads,
        (if head.2.outline.isEmpty then [(head.1, Value.document [])]
          else head.2.outline.leaves.map fun leaf => (head.1 ++ "." ++ leaf.1, leaf.2)).Perm
          ((Split.headEntries head).map fun entry => (entry.1, entry.2.toValue)) := by
      rintro ⟨head, below⟩ hb
      have hbelow := h.below hb
      rw [isEmpty_outline]
      cases below with
      | nil => exact List.Perm.refl _
      | cons entry rest =>
        have hmap := (ih ⟨_, hb⟩ hbelow).map fun leaf : String × Value =>
          (head ++ "." ++ leaf.1, leaf.2)
        rw [List.map_map] at hmap
        rw [Split.headEntries_of_ne_nil (List.cons_ne_nil _ _), List.map_map]
        exact hmap
    have hbelow : (Outline.leavesBelow (tree.split.heads.map fun entry =>
        (entry.1, entry.2.outline))).Perm ((tree.split.heads.flatMap Split.headEntries).map
          fun entry => (entry.1, entry.2.toValue)) := by
      rw [Outline.leavesBelow_eq_flatMap, List.flatMap_map, List.map_flatMap]
      exact List.Perm.flatMap_left _ hhead
    rw [outline_eq, Outline.leaves]
    refine (hbelow.append_left _).trans ?_
    rw [← List.map_append]
    exact h.split_perm.1.map _

end AccessRules
