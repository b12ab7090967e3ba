import AccessRules.MemoryStore
import AccessRules.Pattern.Syntax
import AccessRules.Proofs.Path
import AccessRules.Proofs.Places

/-! Dotted and nested spellings say the same. Where no condition stands at a path that leads on to
another one, merging and splitting keep every condition, so a tree resolves to what its conditions
by path resolve to, however its keys are spelled. -/
namespace AccessRules

/-- Every path has one condition, and none is the beginning of another. -/
def PrefixFree (leaves : List (List String × Condition)) : Prop :=
  ∀ a ∈ leaves, ∀ b ∈ leaves, a.1 <+: b.1 → a = b

theorem PrefixFree.subset {xs ys : List (List String × Condition)} (h : PrefixFree ys)
    (hsub : ∀ leaf ∈ xs, leaf ∈ ys) : PrefixFree xs :=
  fun a ha b hb => h a (hsub a ha) b (hsub b hb)

theorem PrefixFree.below {xs ys : List (List String × Condition)} (h : PrefixFree ys)
    (path : List String) (hsub : ∀ leaf ∈ xs, (path ++ leaf.1, leaf.2) ∈ ys) : PrefixFree xs := by
  intro a ha b hb hab
  have heq := h _ (hsub a ha) _ (hsub b hb) (List.prefix_append_right_inj path |>.mpr hab)
  rw [Prod.mk.injEq, List.append_cancel_left_eq] at heq
  exact Prod.ext heq.1 heq.2

namespace Condition
variable {c d e : Condition} {p : List String} {tree : Tree}

theorem leaves_leaf (h : c.isNested = false) : c.leaves = [([], c)] := by
  rw [leaves, places, placesBy_leaf h]
  rfl

@[simp] theorem leaves_empty : (nested []).leaves = [([], nested [])] := by
  rw [leaves, places, placesBy_empty]
  rfl

theorem mem_leaves_nested (h : tree ≠ []) :
    (p, e) ∈ (nested tree).leaves ↔
      ∃ key c q, (key, c) ∈ tree ∧ (q, e) ∈ c.leaves ∧ p = keyPath key ++ q := by
  rw [mem_leaves, places, mem_placesBy_nested h]
  simp only [reduceCtorEq, and_false, false_or, Tree.mem_placesBy, mem_leaves, places]

theorem Ordered.exists_placesBy (h : c.Ordered) (path : String → List String) :
    ∃ p e, (p, some e) ∈ c.placesBy path := by
  induction h with
  | leaf hleaf => exact ⟨_, _, (mem_placesBy_nil (.inl hleaf)).mpr ⟨rfl, rfl⟩⟩
  | @nested tree _ _ ih =>
    cases tree with
    | nil => exact ⟨_, _, (mem_placesBy_nil (.inr rfl)).mpr ⟨rfl, rfl⟩⟩
    | cons entry rest =>
      obtain ⟨q, e, hq⟩ := ih entry List.mem_cons_self
      exact ⟨_, _, (mem_placesBy_nested (List.cons_ne_nil _ _)).mpr
        (.inr (Tree.mem_placesBy.mpr ⟨entry.1, entry.2, q, List.mem_cons_self, hq, rfl⟩))⟩

theorem Ordered.exists_leaf (h : c.Ordered) : ∃ leaf, leaf ∈ c.leaves := by
  obtain ⟨p, e, hp⟩ := h.exists_placesBy keyPath
  exact ⟨(p, e), mem_leaves.mpr hp⟩

theorem eq_of_prefixFree {xs : List (List String × Condition)} (h : PrefixFree xs)
    (hd : ([], d) ∈ xs) {leaf : List String × Condition} (hleaf : leaf ∈ xs) : leaf = ([], d) :=
  (h _ hd leaf hleaf List.nil_prefix).symm

theorem ne_nil_of_mem_nested (h : tree ≠ []) (hp : (p, e) ∈ (nested tree).leaves) : p ≠ [] := by
  obtain ⟨key, c, q, -, -, rfl⟩ := (mem_leaves_nested h).mp hp
  exact List.append_ne_nil_of_left_ne_nil (keyPath_ne_nil key) q

theorem eq_nil_iff_of_prefixFree {added : Tree} (hadded : (nested added).Ordered)
    (htree : (nested tree).Ordered)
    (hfree : PrefixFree ((nested added).leaves ++ (nested tree).leaves)) :
    added = [] ↔ tree = [] := by
  refine ⟨fun ha => ?_, fun ht => ?_⟩
  · subst ha
    obtain ⟨leaf, hmem⟩ := htree.exists_leaf
    have hown : ([], nested []) ∈ (nested []).leaves ++ (nested tree).leaves := by
      simp [leaves_empty]
    rw [eq_of_prefixFree hfree hown (List.mem_append_right _ hmem)] at hmem
    by_contra hne
    exact ne_nil_of_mem_nested hne hmem rfl
  · subst ht
    obtain ⟨leaf, hmem⟩ := hadded.exists_leaf
    have hown : ([], nested []) ∈ (nested added).leaves ++ (nested []).leaves := by
      simp [leaves_empty]
    rw [eq_of_prefixFree hfree hown (List.mem_append_left _ hmem)] at hmem
    by_contra hne
    exact ne_nil_of_mem_nested hne hmem rfl

theorem mem_leaves_mergeOnto (h : c.Ordered) (hd : d.Ordered)
    (hfree : PrefixFree (c.leaves ++ d.leaves)) (hp : (p, e) ∈ c.leaves ++ d.leaves) :
    (p, e) ∈ (c.mergeOnto (some d)).leaves := by
  induction h generalizing d p e with
  | @leaf c hleaf =>
    have hown : ([], c) ∈ c.leaves ++ d.leaves := by simp [leaves_leaf hleaf]
    rw [mergeOnto_leaf hleaf, leaves_leaf hleaf, eq_of_prefixFree hfree hown hp]
    exact List.mem_singleton_self _
  | @nested added hsorted hentries ih =>
    have hadded : (nested added).Ordered := .nested hsorted hentries
    cases hd with
    | @leaf d hleaf =>
      -- the condition stands at the empty path, so nothing else can be said
      exfalso
      have hown : ([], d) ∈ (nested added).leaves ++ d.leaves := by simp [leaves_leaf hleaf]
      obtain ⟨leaf, hmem⟩ := hadded.exists_leaf
      rw [eq_of_prefixFree hfree hown (List.mem_append_left _ hmem)] at hmem
      by_cases hnil : added = []
      · rw [hnil, leaves_empty, List.mem_singleton, Prod.mk.injEq] at hmem
        rw [hmem.2] at hleaf
        cases hleaf
      · exact ne_nil_of_mem_nested hnil hmem rfl
    | @nested tree htree htrees =>
      have hempty := eq_nil_iff_of_prefixFree hadded (.nested htree htrees) hfree
      change (p, e) ∈ (nested (Tree.mergeEntries added tree)).leaves
      by_cases hnil : Tree.mergeEntries added tree = []
      · obtain ⟨rfl, rfl⟩ := (Tree.mergeEntries_eq_nil_iff hsorted htree).mp hnil
        simpa [hnil] using hp
      have hne : added ≠ [] ∧ tree ≠ [] := by
        rw [Tree.mergeEntries_eq_nil_iff hsorted htree, hempty, and_self] at hnil
        exact ⟨fun ha => hnil (hempty.mp ha), hnil⟩
      have hmerged := Tree.sorted_mergeEntries added htree
      have hentry : ∀ {key x q}, (Tree.mergeEntries added tree).lookup key = some x →
          (q, e) ∈ x.leaves → p = keyPath key ++ q →
            (p, e) ∈ (nested (Tree.mergeEntries added tree)).leaves :=
        fun hlookup hq heq => (mem_leaves_nested hnil).mpr
          ⟨_, _, _, hmerged.lookup_eq_some_iff.mp hlookup, hq, heq⟩
      -- what both trees hold at one key is merged in turn
      have hmeet : ∀ {key x y q}, (key, x) ∈ added → (key, y) ∈ tree →
          (q, e) ∈ x.leaves ++ y.leaves → (q, e) ∈ (x.mergeOnto (some y)).leaves := by
        intro key x y q hx hy hq
        refine ih (key, x) hx (htrees _ hy) (hfree.below (keyPath key) fun leaf hleaf => ?_) hq
        rcases List.mem_append.mp hleaf with hleaf | hleaf
        · exact List.mem_append_left _ ((mem_leaves_nested hne.1).mpr ⟨_, _, _, hx, hleaf, rfl⟩)
        · exact List.mem_append_right _ ((mem_leaves_nested hne.2).mpr ⟨_, _, _, hy, hleaf, rfl⟩)
      rcases List.mem_append.mp hp with hp | hp
      · obtain ⟨key, x, q, hx, hq, heq⟩ := (mem_leaves_nested hne.1).mp hp
        have hlookup := Tree.lookup_mergeEntries hsorted htree key
        rw [hsorted.lookup_eq_some_iff.mpr hx] at hlookup
        refine hentry hlookup ?_ heq
        cases hy : tree.lookup key with
        | none => rwa [mergeOnto_none]
        | some y => exact hmeet hx (htree.lookup_eq_some_iff.mp hy) (List.mem_append_left _ hq)
      · obtain ⟨key, y, q, hy, hq, heq⟩ := (mem_leaves_nested hne.2).mp hp
        have hlookup := Tree.lookup_mergeEntries hsorted htree key
        rw [htree.lookup_eq_some_iff.mpr hy] at hlookup
        cases hx : added.lookup key with
        | none =>
          rw [hx] at hlookup
          exact hentry hlookup hq heq
        | some x =>
          rw [hx] at hlookup
          exact hentry hlookup
            (hmeet (hsorted.lookup_eq_some_iff.mp hx) hy (List.mem_append_right _ hq)) heq

end Condition

namespace Tree
variable {tree : Tree} {head : String} {c d e : Condition} {p : List String}

theorem mem_leaves_mergeInto {cs : List Condition} (h : ∀ c ∈ cs, c.Ordered)
    (hfree : PrefixFree (cs.flatMap Condition.leaves)) (hd : mergeInto none cs = some d)
    (hc : c ∈ cs) (hp : (p, e) ∈ c.leaves) : (p, e) ∈ d.leaves := by
  induction cs using List.reverseRecOn generalizing d with
  | nil => cases hc
  | append_singleton cs x ih =>
    have hcs : ∀ y ∈ cs, y.Ordered := fun y hy => h y (List.mem_append_left _ hy)
    rw [List.flatMap_append, List.flatMap_singleton] at hfree
    rw [mergeInto_append_singleton] at hd
    cases hd
    cases hpresent : mergeInto none cs with
    | none =>
      rw [mergeInto_eq_none_iff.mp hpresent, List.nil_append, List.mem_singleton] at hc
      rwa [Condition.mergeOnto_none, ← hc]
    | some present =>
      have hsub : ∀ leaf ∈ present.leaves, leaf ∈ cs.flatMap Condition.leaves := by
        rintro ⟨q, f⟩ hleaf
        obtain ⟨y, hy, hq⟩ := mem_placesBy_mergeInto hcs hpresent (Condition.mem_leaves.mp hleaf)
        exact List.mem_flatMap.mpr ⟨y, hy, Condition.mem_leaves.mpr hq⟩
      refine Condition.mem_leaves_mergeOnto (h x (by simp)) (ordered_mergeInto hcs _ hpresent)
        (hfree.subset fun leaf hleaf => ?_) ?_
      · rcases List.mem_append.mp hleaf with hleaf | hleaf
        · exact List.mem_append_right _ hleaf
        · exact List.mem_append_left _ (hsub leaf hleaf)
      · rcases List.mem_append.mp hc with hc | hc
        · exact List.mem_append_right _
            (ih hcs (hfree.subset fun _ => List.mem_append_left _) hpresent hc)
        · rw [List.mem_singleton.mp hc] at hp
          exact List.mem_append_left _ hp

theorem isNested_under (h : tree.Ordered) (hc : tree.under head = some c) :
    ∃ below, c = .nested below := by
  rw [← split_under h, Split.under, Option.map_eq_some_iff] at hc
  obtain ⟨below, -, rfl⟩ := hc
  exact ⟨below, rfl⟩

theorem exists_contribution_of_mem_leaves (h : (head :: p, e) ∈ tree.leaves)
    (hp : p = [] → e.isNested = true) :
    ∃ entry ∈ tree, ∃ c, contribution head entry = some c ∧ (p, e) ∈ c.leaves := by
  obtain ⟨key, d, q, hmem, hq, heq⟩ := mem_places.mp (mem_leaves.mp h)
  refine ⟨(key, d), hmem, ?_⟩
  unfold contribution
  cases hs : splitKey key with
  | some parts =>
    obtain ⟨first, tail⟩ := parts
    rw [keyPath_split hs, List.cons_append, List.cons.injEq] at heq
    simp only [heq.1, if_true]
    refine ⟨_, rfl, (Condition.mem_leaves_nested (List.cons_ne_nil _ _)).mpr
      ⟨tail, d, q, List.mem_singleton_self _, Condition.mem_leaves.mpr hq, heq.2⟩⟩
  | none =>
    rw [keyPath_undivided hs, List.singleton_append, List.cons.injEq] at heq
    obtain ⟨rfl, rfl⟩ := heq
    have hnested : d.isNested = true := by
      by_contra hleaf
      rw [Bool.not_eq_true] at hleaf
      obtain ⟨hnil, hd⟩ := (Condition.mem_placesBy_nil (.inl hleaf)).mp hq
      rw [Option.some.inj hd] at hp
      exact absurd (hp hnil) (by simp [hleaf])
    simp only [hnested, and_self, if_true]
    exact ⟨_, rfl, Condition.mem_leaves.mpr hq⟩

theorem isSome_under_iff (h : tree.Ordered) :
    (tree.under head).isSome = true ↔
      ∃ p e, (head :: p, e) ∈ tree.leaves ∧ (p = [] → e.isNested = true) := by
  refine ⟨fun hsome => ?_, fun ⟨p, e, hmem, hp⟩ => ?_⟩
  · obtain ⟨c, hc⟩ := Option.isSome_iff_exists.mp hsome
    obtain ⟨⟨p, e⟩, hleaf⟩ := (ordered_under h hc).exists_leaf
    refine ⟨p, e, ?_, fun hp => ?_⟩
    · have hplace := mem_places_under h hc (Condition.mem_leaves.mp hleaf)
      exact mem_leaves.mpr (hplace.resolve_right (by simp))
    · obtain ⟨below, rfl⟩ := isNested_under h hc
      by_cases hnil : below = []
      · rw [hnil, Condition.leaves_empty, List.mem_singleton, Prod.mk.injEq] at hleaf
        rw [hleaf.2]
        rfl
      · exact absurd hp (Condition.ne_nil_of_mem_nested hnil hleaf)
  · obtain ⟨entry, he, c, hc, -⟩ := exists_contribution_of_mem_leaves hmem hp
    exact isSome_under.mpr ⟨entry, he, c, hc⟩

theorem mem_leaves_under (h : tree.Ordered) (hfree : PrefixFree tree.leaves)
    (hc : tree.under head = some c) : (p, e) ∈ c.leaves ↔ (head :: p, e) ∈ tree.leaves := by
  refine ⟨fun hp => ?_, fun hp => ?_⟩
  · have hplace := mem_places_under h hc (Condition.mem_leaves.mp hp)
    exact mem_leaves.mpr (hplace.resolve_right (by simp))
  · have hentry : p = [] → e.isNested = true := by
      rintro rfl
      obtain ⟨q, f, hmem, hq⟩ := (isSome_under_iff h).mp (by rw [hc]; rfl)
      have heq := hfree _ hp _ hmem (List.prefix_append [head] q)
      rw [Prod.mk.injEq, List.cons.injEq] at heq
      rw [heq.2]
      exact hq heq.1.2.symm
    obtain ⟨entry, he, d, hd, hleaf⟩ := exists_contribution_of_mem_leaves hp hentry
    have hmem : d ∈ tree.filterMap (contribution head) := List.mem_filterMap.mpr ⟨entry, he, hd⟩
    refine mem_leaves_mergeInto (ordered_contribution h) ?_ hc hmem hleaf
    refine hfree.below [head] fun leaf hleaf => ?_
    obtain ⟨x, hx, hleaf⟩ := List.mem_flatMap.mp hleaf
    obtain ⟨entry, he, hx⟩ := List.mem_filterMap.mp hx
    have hplace := mem_places_contribution hx (Condition.mem_leaves.mp hleaf)
    obtain ⟨q, hq, heq⟩ := hplace.resolve_right (by simp)
    exact mem_leaves.mpr (mem_places.mpr ⟨_, _, q, he, hq, heq⟩)

theorem mem_leaves_iff_nested : (p, e) ∈ tree.leaves ↔
    (p, e) ∈ (Condition.nested tree).leaves ∧ p ≠ [] := by
  by_cases hnil : tree = []
  · subst hnil
    rw [Condition.leaves_empty, List.mem_singleton, Prod.mk.injEq]
    exact ⟨nofun, fun ⟨hp, hne⟩ => absurd hp.1 hne⟩
  · have hne : (p, e) ∈ (Condition.nested tree).leaves → p ≠ [] :=
      Condition.ne_nil_of_mem_nested hnil
    rw [and_iff_left_of_imp hne, Condition.mem_leaves_nested hnil, mem_leaves, mem_places]
    simp only [Condition.mem_leaves]

theorem mem_leaves_undivided {key : String} (hs : splitKey key = none) (hc : c.isNested = false) :
    ([key], c) ∈ tree.leaves ↔ (key, c) ∈ tree := by
  rw [mem_leaves, mem_places]
  refine ⟨fun ⟨k, d, q, hmem, hq, heq⟩ => ?_, fun hmem => ⟨key, c, [], hmem, ?_, ?_⟩⟩
  · cases hk : splitKey k with
    | some parts =>
      rw [keyPath_split hk, List.cons_append, List.cons.injEq] at heq
      exact absurd heq.2.symm (List.append_ne_nil_of_left_ne_nil (keyPath_ne_nil _) _)
    | none =>
      rw [keyPath_undivided hk, List.singleton_append, List.cons.injEq] at heq
      obtain ⟨rfl, rfl⟩ := heq
      cases d with
      | nested below =>
        by_cases hnil : below = []
        · rw [hnil] at hq
          have heq := ((Condition.mem_placesBy_nil (.inr rfl)).mp hq).2
          rw [Option.some.inj heq] at hc
          cases hc
        · exact absurd rfl (Condition.ne_nil_of_mem_nested hnil (Condition.mem_leaves.mpr hq))
      | _ => rwa [Option.some.inj ((Condition.mem_placesBy_nil (.inl rfl)).mp hq).2]
  · exact (Condition.mem_placesBy_nil (.inl hc)).mpr ⟨rfl, rfl⟩
  · rw [keyPath_undivided hs]
    rfl

theorem exists_head_of_leaves {t₁ t₂ : Tree} (h₁ : t₁.Ordered) (h₂ : t₂.Ordered)
    (hfree : PrefixFree t₁.leaves) (hleaves : ∀ leaf, leaf ∈ t₁.leaves ↔ leaf ∈ t₂.leaves)
    {below₁ : Tree} (hb : (head, below₁) ∈ t₁.split.heads) :
    ∃ below₂, (head, below₂) ∈ t₂.split.heads ∧ below₁.Ordered ∧ below₂.Ordered ∧
      PrefixFree below₁.leaves ∧ ∀ leaf, leaf ∈ below₁.leaves ↔ leaf ∈ below₂.leaves := by
  have hunder₁ := (mem_split_heads h₁).mp hb
  have hsome : (t₂.under head).isSome = true := by
    rw [isSome_under_iff h₂]
    simp only [← hleaves]
    exact (isSome_under_iff h₁).mp (by rw [hunder₁]; rfl)
  obtain ⟨c, hc⟩ := Option.isSome_iff_exists.mp hsome
  obtain ⟨below₂, rfl⟩ := isNested_under h₂ hc
  have hfree₂ : PrefixFree t₂.leaves := hfree.subset fun leaf hleaf => (hleaves leaf).mpr hleaf
  refine ⟨below₂, (mem_split_heads h₂).mpr hc, ordered_under h₁ hunder₁, ordered_under h₂ hc, ?_,
    fun leaf => ?_⟩
  · refine hfree.below [head] fun leaf hleaf => ?_
    exact (mem_leaves_under h₁ hfree hunder₁).mp (mem_leaves_iff_nested.mp hleaf).1
  · rw [mem_leaves_iff_nested, mem_leaves_iff_nested, mem_leaves_under h₁ hfree hunder₁,
      mem_leaves_under h₂ hfree₂ hc, hleaves]

/-- Trees with the same conditions by path, none of which leads on to another one, have one
outline. -/
theorem outline_eq_of_leaves {t₁ t₂ : Tree} (h₁ : t₁.Ordered) (h₂ : t₂.Ordered)
    (hfree : PrefixFree t₁.leaves) (hleaves : ∀ leaf, leaf ∈ t₁.leaves ↔ leaf ∈ t₂.leaves) :
    t₁.outline = t₂.outline := by
  induction t₁ using Tree.outline.induct generalizing t₂ with
  | case1 t₁ ih =>
    have hfree₂ : PrefixFree t₂.leaves := hfree.subset fun leaf hleaf => (hleaves leaf).mpr hleaf
    have hdirect : t₁.split.direct = t₂.split.direct := by
      refine t₁.sorted_split.2.ext t₂.sorted_split.2 fun entry => ?_
      rw [mem_split_direct h₁.sorted, mem_split_direct h₂.sorted]
      refine and_congr_left fun hown => ?_
      rw [← mem_leaves_undivided hown.1 hown.2, ← mem_leaves_undivided hown.1 hown.2, hleaves]
    have hheads : t₁.split.heads.map (fun entry => (entry.1, outline entry.2)) =
        t₂.split.heads.map (fun entry => (entry.1, outline entry.2)) := by
      have hsorted : ∀ tree : Tree, KeyMap.Sorted
          (tree.split.heads.map fun entry => (entry.1, outline entry.2)) :=
        fun tree => List.pairwise_map.mpr tree.sorted_split.1
      refine (hsorted t₁).ext (hsorted t₂) fun entry => ?_
      rw [List.mem_map, List.mem_map]
      refine ⟨?_, ?_⟩
      · rintro ⟨⟨head, below₁⟩, hb, rfl⟩
        obtain ⟨below₂, hb₂, ho₁, ho₂, hf, hl⟩ := exists_head_of_leaves h₁ h₂ hfree hleaves hb
        exact ⟨_, hb₂, by rw [ih ⟨_, hb⟩ ho₁ ho₂ hf hl]⟩
      · rintro ⟨⟨head, below₂⟩, hb, rfl⟩
        obtain ⟨below₁, hb₁, ho₂, ho₁, hf, hl⟩ :=
          exists_head_of_leaves h₂ h₁ hfree₂ (fun leaf => (hleaves leaf).symm) hb
        have hf₁ : PrefixFree below₁.leaves := hf.subset fun leaf hleaf => (hl leaf).mpr hleaf
        exact ⟨_, hb₁, by rw [ih ⟨_, hb₁⟩ ho₁ ho₂ hf₁ fun leaf => (hl leaf).symm]⟩
    rw [outline_eq, outline_eq, hdirect, hheads]

end Tree

theorem isToken_segment {key : String} (h : Operator.isToken key = true) :
    ∃ segment ∈ Path.segments key, Operator.isToken segment = true := by
  unfold Operator.isToken at h
  rw [beq_iff_eq, List.head?_eq_some_iff] at h
  obtain ⟨rest, hchars⟩ := h
  unfold Path.segments
  rw [hchars, Path.splitDots, if_neg (by decide)]
  cases hs : Path.splitDots rest with
  | nil => exact absurd hs (Path.splitDots_ne_nil rest)
  | cons piece pieces => exact ⟨_, List.mem_cons_self, by simp [Operator.isToken]⟩

theorem keyPath_eq_segments {key : String}
    (h : ∀ segment ∈ Path.segments key, Operator.isToken segment = false) :
    keyPath key = Path.segments key := by
  induction key using keyPath.induct with
  | case1 key hs =>
    have ht : Operator.isToken key = false := by
      by_contra htoken
      obtain ⟨segment, hsegment, htoken⟩ := isToken_segment (by simpa using htoken)
      rw [h segment hsegment] at htoken
      cases htoken
    rw [keyPath_undivided hs, Path.segments_field (noDot_of_splitKey hs ht)]
  | case2 key head tail hs _ ih =>
    obtain ⟨rfl, hdot, -⟩ := splitKey_eq_some_iff.mp hs
    rw [Path.segments_below hdot] at h ⊢
    rw [keyPath_split hs, ih fun segment hsegment => h segment (List.mem_cons_of_mem _ hsegment)]

theorem Condition.Ordered.placesBy_segments {c : Condition} (h : c.Ordered)
    (hnames : ∀ p d, (p, some d) ∈ c.placesBy Path.segments →
      ∀ segment ∈ p, Operator.isToken segment = false) :
    c.placesBy Path.segments = c.places := by
  induction h with
  | leaf hleaf => rw [places, placesBy_leaf hleaf, placesBy_leaf hleaf]
  | @nested tree hsorted hentries ih =>
    by_cases hnil : tree = []
    · rw [hnil, places, placesBy_empty, placesBy_empty]
    have hinside : ∀ p d, (p, some d) ∈ Tree.placesBy Path.segments tree →
        ∀ segment ∈ p, Operator.isToken segment = false := fun p d hp =>
      hnames p d ((mem_placesBy_nested hnil).mpr (.inr hp))
    rw [places, placesBy_nested hnil, placesBy_nested hnil, List.cons.injEq]
    refine ⟨rfl, ?_⟩
    clear hnil hnames hsorted
    induction tree with
    | nil => rfl
    | cons entry rest ihRest =>
      have hentry : ∀ q d, (q, some d) ∈ entry.2.placesBy Path.segments →
          ∀ segment ∈ Path.segments entry.1 ++ q, Operator.isToken segment = false :=
        fun q d hq => hinside _ d (Tree.mem_placesBy.mpr ⟨_, _, q, List.mem_cons_self, hq, rfl⟩)
      have hkey : keyPath entry.1 = Path.segments entry.1 := by
        obtain ⟨q, d, hq⟩ := (hentries entry List.mem_cons_self).exists_placesBy Path.segments
        exact keyPath_eq_segments fun segment hs =>
          hentry q d hq segment (List.mem_append_left _ hs)
      have hcondition := ih entry List.mem_cons_self fun q d hq segment hs =>
        hentry q d hq segment (List.mem_append_right _ hs)
      have hrest := ihRest (fun e he => hentries e (List.mem_cons_of_mem _ he))
        (fun e he => ih e (List.mem_cons_of_mem _ he)) fun p d hp => hinside p d (by
          rw [Tree.placesBy]
          exact List.mem_append_right _ hp)
      rw [Tree.placesBy, Tree.placesBy, hrest, hcondition, hkey]
      rfl

section Spelling
variable {tree t₁ t₂ : Tree}

theorem Tree.leavesBy_segments (h : tree.Ordered)
    (hnames : ∀ leaf ∈ tree.leavesBy Path.segments, ∀ segment ∈ leaf.1,
      Operator.isToken segment = false) : tree.leavesBy Path.segments = tree.leaves := by
  by_cases hnil : tree = []
  · rw [hnil]
    rfl
  have hplaces := Condition.Ordered.placesBy_segments h fun p d hp => by
    rcases (Condition.mem_placesBy_nested hnil).mp hp with ⟨rfl, -⟩ | hp
    · exact nofun
    · exact hnames (p, d) (Tree.mem_leavesBy.mpr hp)
  rw [Condition.places, Condition.placesBy_nested hnil, Condition.placesBy_nested hnil,
    List.cons.injEq] at hplaces
  rw [leaves, leavesBy, leavesBy, hplaces.2]

/-- Trees that say the same at the same paths resolve to the same clauses, or fail alike, with the
same questions to the store in the same order, however dots and nesting are mixed in them. -/
theorem resolve_eq_of_leaves (h₁ : t₁.Ordered) (h₂ : t₂.Ordered)
    (hleaves : ∀ leaf, leaf ∈ t₁.leavesBy Path.segments ↔ leaf ∈ t₂.leavesBy Path.segments)
    (hnames : ∀ leaf ∈ t₁.leavesBy Path.segments, ∀ segment ∈ leaf.1,
      Operator.isToken segment = false)
    (hfree : PrefixFree (t₁.leavesBy Path.segments)) (schema : Schema) (store : Store)
    (type : EntityType) :
    resolve schema store type t₁ = resolve schema store type t₂ := by
  have hnames₂ : ∀ leaf ∈ t₂.leavesBy Path.segments, ∀ segment ∈ leaf.1,
      Operator.isToken segment = false := fun leaf hleaf => hnames leaf ((hleaves leaf).mpr hleaf)
  rw [Tree.leavesBy_segments h₁ hnames, Tree.leavesBy_segments h₂ hnames₂] at hleaves
  rw [Tree.leavesBy_segments h₁ hnames] at hfree
  rw [resolve, resolve, Tree.outline_eq_of_leaves h₁ h₂ hfree hleaves]

theorem resolve_eq_of_leaves_project :
    let schema : Schema := ⟨[("Project", ⟨[("owner", ⟨.foreignKey, some ⟨"Owner"⟩, none⟩)], []⟩)]⟩
    let store : MemoryStore := .ofEntries [(⟨"Owner"⟩, [("_id", .int32 7), ("name", .text "X")])]
    let dotted : Tree := [("m.a.b", .scalar (.int32 1)), ("m.c", .nested []),
      ("owner.name", .scalar (.text "X"))]
    let nested : Tree := [("m", .nested [("a", .nested [("b", .scalar (.int32 1))]),
      ("c", .nested [])]), ("owner", .nested [("name", .scalar (.text "X"))])]
    dotted.Ordered ∧ nested.Ordered ∧
      dotted.leavesBy Path.segments = nested.leavesBy Path.segments ∧
      (∀ leaf ∈ dotted.leavesBy Path.segments, ∀ segment ∈ leaf.1,
        Operator.isToken segment = false) ∧
      PrefixFree (dotted.leavesBy Path.segments) ∧
      resolve schema store ⟨"Project"⟩ dotted = resolve schema store ⟨"Project"⟩ nested := by
  intro schema store dotted nested
  have hdotted : dotted.leavesBy Path.segments = [(["m", "a", "b"], .scalar (.int32 1)),
      (["m", "c"], .nested []), (["owner", "name"], .scalar (.text "X"))] := by
    with_unfolding_all rfl
  have hnested : nested.leavesBy Path.segments = [(["m", "a", "b"], .scalar (.int32 1)),
      (["m", "c"], .nested []), (["owner", "name"], .scalar (.text "X"))] := by
    with_unfolding_all rfl
  have hordered₁ : dotted.Ordered := Tree.ordered_ofDocument
    [("m.a.b", .int32 1), ("m.c", .document []), ("owner.name", .text "X")]
  have hordered₂ : nested.Ordered := Tree.ordered_ofDocument
    [("m", .document [("a", .document [("b", .int32 1)]), ("c", .document [])]),
      ("owner", .document [("name", .text "X")])]
  have hleaves : ∀ leaf, leaf ∈ dotted.leavesBy Path.segments ↔
      leaf ∈ nested.leavesBy Path.segments := by
    rw [hdotted, hnested]
    exact fun _ => Iff.rfl
  have hnames : ∀ leaf ∈ dotted.leavesBy Path.segments, ∀ segment ∈ leaf.1,
      Operator.isToken segment = false := by
    rw [hdotted]
    decide
  have hfree : PrefixFree (dotted.leavesBy Path.segments) := by
    rw [hdotted]
    intro a ha b hb
    simp only [List.mem_cons, List.not_mem_nil, or_false] at ha hb
    rcases ha with rfl | rfl | rfl <;> rcases hb with rfl | rfl | rfl <;>
      first | exact fun _ => rfl | exact fun h => absurd h (by decide)
  exact ⟨hordered₁, hordered₂, hdotted.trans hnested.symm, hnames, hfree,
    resolve_eq_of_leaves hordered₁ hordered₂ hleaves hnames hfree schema store ⟨"Project"⟩⟩

end Spelling
end AccessRules
