import AccessRules.Proofs.Derivation
import AccessRules.Proofs.Grouping

/-! Resolution comes to an end. A relation may lead back to the type that it starts from, so types
do not bound how far a resolution descends. But every step uses up a segment of a key, and sends at
most one question to the store. -/
namespace AccessRules

namespace Run
variable {α β : Type}

theorem length_queries_bind {run : Run α} {next : α → Run β} {m n : Nat}
    (h : run.queries.length ≤ m) (hnext : ∀ a, (next a).queries.length ≤ n) :
    (run >>= next).queries.length ≤ m + n := by
  cases hr : run.result with
  | error e =>
    rw [bind_error hr]
    exact Nat.le_add_right_of_le h
  | ok a =>
    rw [bind_ok hr, List.length_append]
    exact Nat.add_le_add h (hnext a)

theorem mapM_congr {f g : α → Run β} {xs : List α} (h : ∀ x ∈ xs, f x = g x) :
    xs.mapM f = xs.mapM g := by
  induction xs with
  | nil => rw [List.mapM_nil, List.mapM_nil]
  | cons x xs ih =>
    obtain ⟨hx, hxs⟩ := List.forall_mem_cons.mp h
    rw [List.mapM_cons, List.mapM_cons, hx, ih hxs]

end Run

theorem Run.length_queries_mapM {β : Type} {f : String × Tree → Run β}
    {heads : List (String × Tree)}
    (h : ∀ head ∈ heads, (f head).queries.length ≤ 1 + Tree.weight head.2) :
    (heads.mapM f).queries.length ≤ headWeight heads := by
  induction heads with
  | nil =>
    rw [List.mapM_nil]
    exact Nat.zero_le _
  | cons head rest ih =>
    obtain ⟨hhead, hrest⟩ := List.forall_mem_cons.mp h
    rw [List.mapM_cons, headWeight]
    refine length_queries_bind hhead fun b => ?_
    exact length_queries_bind (n := 0) (ih hrest) fun bs => Nat.zero_le 0

section Descent
variable (schema : Schema) (store : Store)

def resolveTree (owner : Option EntityType) (tree : Tree) : Run (List Clause) :=
  tree.outline.resolve schema store owner

/-- One level of a resolution, in which `descend` resolves what lies below the heads. -/
def resolveLevel (descend : Option EntityType → Tree → Run (List Clause))
    (owner : Option EntityType) (tree : Tree) : Run (List Clause) := do
  let below ← tree.split.heads.mapM fun head =>
    headClause schema store owner head.1 head.2.isEmpty fun type => descend type head.2
  pure (tree.split.direct.map (fun entry => .field entry.1 entry.2) ++ below)

/-- The first level of a resolution is needed by the second one, below a plain field or through a
relation. -/
inductive Descends : Option EntityType × Tree → Option EntityType × Tree → Prop
  | plain {owner field tree below} : (field, below) ∈ tree.split.heads →
    schema.head owner field = .plain → below.isEmpty = false →
    Descends (none, below) (owner, tree)
  | related {owner field relation target tree below} : (field, below) ∈ tree.split.heads →
    schema.head owner field = .related relation target →
    Descends (some target, below) (owner, tree)

/-- No resolution descends forever, however the relations of the schema lead back to each other. -/
theorem wellFounded_descends : WellFounded (Descends schema) := by
  refine Subrelation.wf (r := InvImage (· < ·) fun level => Tree.weight level.2) ?_
    (InvImage.wf _ Nat.lt_wfRel.wf)
  rintro _ _ (⟨hmem, -⟩ | ⟨hmem, -⟩) <;> exact Tree.weight_lt_of_mem_split hmem

variable {schema store}
variable {owner : Option EntityType} {tree : Tree}

theorem headClause_congr {field : String} {nothingBelow : Bool}
    {below below' : Option EntityType → Run (List Clause)}
    (hplain : schema.head owner field = .plain → nothingBelow = false → below none = below' none)
    (hrelated : ∀ relation target, schema.head owner field = .related relation target →
      below (some target) = below' (some target)) :
    headClause schema store owner field nothingBelow below =
      headClause schema store owner field nothingBelow below' := by
  unfold headClause
  split
  · next h =>
    cases nothingBelow with
    | true => rfl
    | false => rw [hplain h rfl]
  · rfl
  · next relation target h => rw [hrelated relation target h]

theorem resolveLevel_congr {descend descend' : Option EntityType → Tree → Run (List Clause)}
    (h : ∀ type below, Descends schema (type, below) (owner, tree) →
      descend type below = descend' type below) :
    resolveLevel schema store descend owner tree =
      resolveLevel schema store descend' owner tree := by
  have hheads : (tree.split.heads.mapM fun head =>
        headClause schema store owner head.1 head.2.isEmpty fun type => descend type head.2) =
      tree.split.heads.mapM fun head =>
        headClause schema store owner head.1 head.2.isEmpty fun type => descend' type head.2 :=
    Run.mapM_congr fun head hh => headClause_congr
      (fun hplain hbelow => h none head.2 (.plain hh hplain hbelow))
      fun relation target hrelated => h (some target) head.2 (.related hh hrelated)
  rw [resolveLevel, resolveLevel, hheads]

theorem Outline.resolveHeads_eq_mapM (heads : List (String × Outline)) :
    resolveHeads schema store owner heads = heads.mapM (resolveHead schema store owner) := by
  induction heads with
  | nil => rw [resolveHeads, List.mapM_nil]
  | cons head rest ih => rw [resolveHeads_cons, ih, List.mapM_cons]

theorem resolveTree_eq (owner : Option EntityType) (tree : Tree) :
    resolveTree schema store owner tree =
      resolveLevel schema store (resolveTree schema store) owner tree := by
  have hheads : Outline.resolveHeads schema store owner tree.outline.heads =
      tree.split.heads.mapM fun head => headClause schema store owner head.1 head.2.isEmpty
        fun type => resolveTree schema store type head.2 := by
    rw [Outline.resolveHeads_eq_mapM, Tree.outline_eq, Outline.heads, List.mapM_map]
    refine Run.mapM_congr fun head _ => ?_
    rw [Function.comp_apply, Outline.resolveHead, Tree.isEmpty_outline]
    rfl
  rw [resolveTree, Outline.resolve_eq, hheads, Tree.outline_eq]
  rfl

theorem resolveLevel_unique {recursion : Option EntityType → Tree → Run (List Clause)} :
    (∀ owner tree, recursion owner tree = resolveLevel schema store recursion owner tree) ↔
      recursion = resolveTree schema store := by
  constructor
  · intro h
    funext owner tree
    -- the levels that a level needs are settled before it
    refine (wellFounded_descends schema).induction (C := fun level =>
      recursion level.1 level.2 = resolveTree schema store level.1 level.2) (owner, tree) ?_
    rintro ⟨owner, tree⟩ ih
    rw [h, resolveTree_eq]
    exact resolveLevel_congr fun type below hdescends => ih (type, below) hdescends
  · rintro rfl
    exact resolveTree_eq

theorem length_queries_headClause {field : String} {nothingBelow : Bool}
    {below : Option EntityType → Run (List Clause)} {n : Nat}
    (h : ∀ type, (below type).queries.length ≤ n) :
    (headClause schema store owner field nothingBelow below).queries.length ≤ 1 + n := by
  rw [Nat.add_comm]
  unfold headClause
  split
  · split
    · exact Nat.zero_le _
    · exact Run.length_queries_bind (h none) fun _ => Nat.zero_le 1
  · exact Nat.zero_le _
  · next relation target _ =>
    refine Run.length_queries_bind (h (some target)) fun inside => ?_
    split
    · exact Nat.zero_le 1
    · exact Run.length_queries_bind (m := 1) (n := 0) (Nat.le_refl 1) fun ids => Nat.zero_le 0

theorem length_queries_resolveTree (owner : Option EntityType) (tree : Tree) :
    (resolveTree schema store owner tree).queries.length ≤ Tree.weight tree := by
  induction tree using Tree.outline.induct generalizing owner with
  | case1 tree ih =>
    have hheads : ∀ head ∈ tree.split.heads, (headClause schema store owner head.1 head.2.isEmpty
        fun type => resolveTree schema store type head.2).queries.length ≤
          1 + Tree.weight head.2 :=
      fun head hh => length_queries_headClause fun type => ih ⟨head, hh⟩ type
    calc (resolveTree schema store owner tree).queries.length
        = (resolveLevel schema store (resolveTree schema store) owner tree).queries.length := by
          rw [← resolveTree_eq]
      _ ≤ headWeight tree.split.heads :=
          Run.length_queries_bind (n := 0) (Run.length_queries_mapM hheads) fun _ => Nat.le_refl 0
      _ ≤ Tree.weight tree := tree.headWeight_split

end Descent

/-- Resolution ends on every schema: no descent goes on forever, so its levels determine what is
resolved, and it asks the store at most as many questions as the keys of the tree have segments. -/
theorem resolve_ends (schema : Schema) (store : Store) (type : EntityType) (tree : Tree) :
    WellFounded (Descends schema) ∧
      (∀ recursion : Option EntityType → Tree → Run (List Clause),
        (∀ owner below, recursion owner below = resolveLevel schema store recursion owner below) ↔
          recursion = fun owner below => below.outline.resolve schema store owner) ∧
      (resolve schema store type tree).queries.length ≤ Tree.weight tree :=
  ⟨wellFounded_descends schema, fun _ => resolveLevel_unique,
    length_queries_resolveTree (some type) tree⟩

end AccessRules
