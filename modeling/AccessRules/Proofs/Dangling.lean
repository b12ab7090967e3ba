import AccessRules.Pattern.Syntax
import AccessRules.Proofs.Descent
import AccessRules.Proofs.Spelling

/-! Relations without a target. Where the store answers, conditions cannot be resolved only because
they lead, through relations alone, below a relation without a target; the error is about the first
such relation. -/
namespace AccessRules

/-- What a tree says below a path, where its nested and dotted entries lead there. What they say
below a field is merged, so an entry that another one replaces leads nowhere. -/
def Tree.follow (tree : Tree) : List String → Option Tree
  | [] => some tree
  | field :: path =>
    match tree.under field with
    | some (.nested below) => Tree.follow below path
    | _ => none

/-- A condition is written below a path, or is a nested tree at it. Scalars, lists and operators at
the path itself do not count. -/
def Tree.Enters (tree : Tree) (path : List String) : Prop :=
  ∃ p c, (path ++ p, c) ∈ tree.leaves ∧ (p = [] → c.isNested = true)

/-- The owner and the name of a relation without a target, if a path ends at one and leads to it
through relations. -/
def Schema.dangling? (schema : Schema) (owner : Option EntityType) :
    List String → Option (EntityType × String)
  | [] => none
  | field :: path =>
    match schema.head owner field with
    | .plain => none
    | .dangling type => if path.isEmpty then some (type, field) else none
    | .related _ target => schema.dangling? (some target) path

/-- The entries of a tree lead along a path to a relation without a target. -/
def Dangles (schema : Schema) (owner : Option EntityType) (tree : Tree) (path : List String)
    (missing : EntityType × String) : Prop :=
  (tree.follow path).isSome = true ∧ schema.dangling? owner path = some missing

namespace Tree
variable {tree : Tree} {field : String} {path : List String}

theorem follow_cons (h : tree.Ordered) :
    (tree.follow (field :: path)).isSome = true ↔
      ∃ below, (field, below) ∈ tree.split.heads ∧ (below.follow path).isSome = true := by
  rw [follow]
  simp only [mem_split_heads h]
  split
  · next below hunder => simp [hunder]
  · next hnot => exact ⟨nofun, fun ⟨below, hunder, _⟩ => (hnot below hunder).elim⟩

theorem enters_of_follow (h : tree.Ordered) (hne : path ≠ [])
    (hfollow : (tree.follow path).isSome = true) : tree.Enters path := by
  induction path generalizing tree with
  | nil => exact absurd rfl hne
  | cons field path ih =>
    obtain ⟨below, hmem, hbelow⟩ := (follow_cons h).mp hfollow
    have hunder := (mem_split_heads h).mp hmem
    cases path with
    | nil => exact (isSome_under_iff h).mp (Option.isSome_of_mem hunder)
    | cons next rest =>
      obtain ⟨p, c, hleaf, hnested⟩ :=
        ih (ordered_under h hunder) (List.cons_ne_nil _ _) hbelow
      have hleaf := Condition.mem_leaves.mp (mem_leaves_iff_nested.mp hleaf).1
      have hplace := mem_places_under h hunder hleaf
      exact ⟨p, c, mem_leaves.mpr (hplace.resolve_right (by simp)), hnested⟩

/-- Where no entry replaces another one, all that is written leads on. -/
theorem follow_of_enters (h : tree.Ordered) (hfree : PrefixFree tree.leaves)
    (henters : tree.Enters path) : (tree.follow path).isSome = true := by
  obtain ⟨p, c, hleaf, hnested⟩ := henters
  induction path generalizing tree with
  | nil => rfl
  | cons field path ih =>
    have hsome : (tree.under field).isSome = true := by
      refine (isSome_under_iff h).mpr ⟨path ++ p, c, hleaf, fun hnil => ?_⟩
      exact hnested (List.append_eq_nil_iff.mp hnil).2
    obtain ⟨d, hunder⟩ := Option.isSome_iff_exists.mp hsome
    obtain ⟨below, rfl⟩ := isNested_under h hunder
    refine (follow_cons h).mpr ⟨below, (mem_split_heads h).mpr hunder, ?_⟩
    cases path with
    | nil => rfl
    | cons next rest =>
      have hbelow := (mem_leaves_under h hfree hunder).mpr hleaf
      have hfreeBelow : PrefixFree (Tree.leaves below) := hfree.below [field] fun leaf hl =>
        (mem_leaves_under h hfree hunder).mp (mem_leaves_iff_nested.mp hl).1
      exact ih (ordered_under h hunder) hfreeBelow
        (mem_leaves_iff_nested.mpr ⟨hbelow, List.cons_ne_nil _ _⟩)

end Tree

def Run.Answered {α : Type} (store : Store) (run : Run α) : Prop :=
  ∀ query ∈ run.queries, ∃ ids, store.identifiers query.type query.selector = .ok ids

namespace Run.Answered
variable {α β : Type} {store : Store} {run : Run α} {next : α → Run β}

theorem first (h : (run >>= next).Answered store) : run.Answered store := by
  intro query hq
  cases hr : run.result with
  | error e =>
    rw [bind_error hr] at h
    exact h query hq
  | ok a =>
    rw [bind_ok hr] at h
    exact h query (List.mem_append_left _ hq)

theorem andThen (h : (run >>= next).Answered store) {a : α} (hr : run.result = .ok a) :
    (next a).Answered store := by
  intro query hq
  rw [bind_ok hr] at h
  exact h query (List.mem_append_right _ hq)

end Run.Answered

/-- An outcome is an error exactly if some path ends at a missing target, and then the error is
about the first such path. -/
def ReportsFirst {α : Type} (paths : List String → EntityType × String → Prop) :
    Except AccessError α → Prop
  | .ok _ => ∀ path missing, ¬paths path missing
  | .error e => ∃ path missing, paths path missing ∧ e = .missingTarget missing.1 missing.2 ∧
      ∀ other found, paths other found → other = path ∨ List.Lex (· < ·) path other

namespace ReportsFirst
variable {α β : Type} {paths others : List String → EntityType × String → Prop}

theorem congr {r : Except AccessError α} (h : ReportsFirst paths r)
    (hpaths : ∀ path missing, others path missing ↔ paths path missing) :
    ReportsFirst others r := by
  have heq : others = paths :=
    funext fun path => funext fun missing => propext (hpaths path missing)
  exact heq ▸ h

theorem exists_ok {r : Except AccessError α} (h : ReportsFirst paths r)
    (hnone : ∀ path missing, ¬paths path missing) : ∃ a, r = .ok a := by
  cases r with
  | ok a => exact ⟨a, rfl⟩
  | error e =>
    obtain ⟨path, missing, hpath, -⟩ := h
    exact absurd hpath (hnone path missing)

variable {run : Run α} {next : α → Run β}

theorem bind (hrun : ReportsFirst paths run.result)
    (hnext : ∀ a, run.result = .ok a → ReportsFirst others (next a).result)
    (hlt : ∀ path missing other found, paths path missing → others other found →
      List.Lex (· < ·) path other) :
    ReportsFirst (fun path missing => paths path missing ∨ others path missing)
      (run >>= next).result := by
  cases hr : run.result with
  | error e =>
    rw [hr] at hrun
    obtain ⟨path, missing, hpath, he, hfirst⟩ := hrun
    rw [Run.bind_error hr]
    refine ⟨path, missing, .inl hpath, he, fun other found hother => ?_⟩
    exact hother.elim (hfirst other found) fun h => .inr (hlt path missing other found hpath h)
  | ok a =>
    rw [hr] at hrun
    rw [Run.bind_ok hr]
    exact (hnext a hr).congr fun path missing => or_iff_right (hrun path missing)

theorem bind_ok (hrun : ReportsFirst paths run.result)
    (hnext : ∀ a, run.result = .ok a → ∃ b, (next a).result = .ok b) :
    ReportsFirst paths (run >>= next).result := by
  have hthen : ∀ a, run.result = .ok a →
      ReportsFirst (fun _ _ => False) (next a).result := by
    intro a ha
    obtain ⟨b, hb⟩ := hnext a ha
    rw [hb]
    exact fun _ _ => id
  exact (hrun.bind hthen fun _ _ _ _ _ => False.elim).congr fun _ _ => by rw [or_false]

theorem cons {r : Except AccessError α} (h : ReportsFirst paths r) (field : String) :
    ReportsFirst (fun path missing => ∃ rest, path = field :: rest ∧ paths rest missing) r := by
  cases r with
  | ok a =>
    rintro path missing ⟨rest, -, hrest⟩
    exact h rest missing hrest
  | error e =>
    obtain ⟨path, missing, hpath, he, hfirst⟩ := h
    refine ⟨field :: path, missing, ⟨path, rfl, hpath⟩, he, ?_⟩
    rintro other found ⟨rest, rfl, hrest⟩
    exact (hfirst rest found hrest).imp (congrArg (List.cons field)) List.Lex.cons

theorem mapM {α β : Type} {store : Store} {heads : List (String × α)}
    (hsorted : KeyMap.Sorted heads) {f : String × α → Run β}
    {paths : String × α → List String → EntityType × String → Prop}
    (hhead : ∀ head path missing, paths head path missing → ∃ rest, path = head.1 :: rest)
    (hf : ∀ head ∈ heads, (f head).Answered store → ReportsFirst (paths head) (f head).result)
    (h : (heads.mapM f).Answered store) :
    ReportsFirst (fun path missing => ∃ head ∈ heads, paths head path missing)
      (heads.mapM f).result := by
  induction heads with
  | nil =>
    rw [List.mapM_nil]
    exact fun path missing => by simp
  | cons head rest ih =>
    obtain ⟨hfirst, hrest⟩ := List.pairwise_cons.mp hsorted
    rw [List.mapM_cons] at h ⊢
    have hthen : ∀ b, (f head).result = .ok b →
        ReportsFirst (fun path missing => ∃ later ∈ rest, paths later path missing)
          (rest.mapM f >>= fun bs => pure (b :: bs)).result := by
      intro b hb
      have hlater := ih hrest (fun later hl => hf later (List.mem_cons_of_mem _ hl))
        (h.andThen hb).first
      exact hlater.bind_ok fun bs _ => ⟨b :: bs, rfl⟩
    -- what is reported below this head comes before everything below the later ones
    refine ((hf head List.mem_cons_self h.first).bind hthen ?_).congr fun path missing => by simp
    rintro path missing other found hpath ⟨later, hlater, hother⟩
    obtain ⟨p, rfl⟩ := hhead head path missing hpath
    obtain ⟨q, rfl⟩ := hhead later other found hother
    exact .rel (hfirst later hlater)

end ReportsFirst

section Resolution
variable {schema : Schema} {store : Store} {owner : Option EntityType} {tree : Tree}

def DanglesBelow (schema : Schema) (owner : Option EntityType) (head : String × Tree)
    (path : List String) (missing : EntityType × String) : Prop :=
  ∃ rest, path = head.1 :: rest ∧ (head.2.follow rest).isSome = true ∧
    schema.dangling? owner (head.1 :: rest) = some missing

section Head
variable {head : String × Tree} {path : List String} {missing : EntityType × String}

theorem dangles_iff (h : tree.Ordered) :
    Dangles schema owner tree path missing ↔
      ∃ head ∈ tree.split.heads, DanglesBelow schema owner head path missing := by
  cases path with
  | nil =>
    constructor
    · rintro ⟨-, hnil⟩
      cases hnil
    · rintro ⟨head, -, rest, hnil, -⟩
      cases hnil
  | cons field path =>
    rw [Dangles, Tree.follow_cons h]
    constructor
    · rintro ⟨⟨below, hmem, hfollow⟩, hdangling⟩
      exact ⟨(field, below), hmem, path, rfl, hfollow, hdangling⟩
    · rintro ⟨⟨_, below⟩, hmem, rest, heq, hfollow, hdangling⟩
      cases heq
      exact ⟨⟨below, hmem, hfollow⟩, hdangling⟩

theorem not_dangles_none : ¬Dangles schema none tree path missing := by
  rintro ⟨-, h⟩
  cases path <;> cases h

theorem not_danglesBelow_plain (h : schema.head owner head.1 = .plain) :
    ¬DanglesBelow schema owner head path missing := by
  rintro ⟨rest, -, -, hdangling⟩
  simp [Schema.dangling?, h] at hdangling

theorem danglesBelow_dangling {type : EntityType} (h : schema.head owner head.1 = .dangling type) :
    DanglesBelow schema owner head path missing ↔ path = [head.1] ∧ missing = (type, head.1) := by
  constructor
  · rintro ⟨rest, rfl, -, hdangling⟩
    cases rest <;> simp_all [Schema.dangling?]
  · rintro ⟨rfl, rfl⟩
    exact ⟨[], rfl, rfl, by simp [Schema.dangling?, h]⟩

theorem danglesBelow_related {relation : Relation} {target : EntityType}
    (h : schema.head owner head.1 = .related relation target) :
    DanglesBelow schema owner head path missing ↔
      ∃ rest, path = head.1 :: rest ∧ Dangles schema (some target) head.2 rest missing := by
  simp only [DanglesBelow, Schema.dangling?, h, Dangles]

end Head

theorem reportsFirst_head {head : String × Tree} {nothingBelow : Bool}
    {below : Option EntityType → Run (List Clause)}
    (hbelow : ∀ type, (below type).Answered store →
      ReportsFirst (Dangles schema type head.2) (below type).result)
    (h : (headClause schema store owner head.1 nothingBelow below).Answered store) :
    ReportsFirst (DanglesBelow schema owner head)
      (headClause schema store owner head.1 nothingBelow below).result := by
  unfold headClause at h ⊢
  cases hhead : schema.head owner head.1 with
  | plain =>
    simp only [hhead] at h ⊢
    have hnone : ∀ path missing, ¬DanglesBelow schema owner head path missing :=
      fun _ _ => not_danglesBelow_plain hhead
    cases nothingBelow with
    | true => exact hnone
    | false =>
      obtain ⟨clauses, hclauses⟩ := (hbelow none h.first).exists_ok fun _ _ => not_dangles_none
      rw [if_neg Bool.false_ne_true, Run.bind_ok hclauses]
      exact hnone
  | dangling type =>
    refine ⟨[head.1], (type, head.1), (danglesBelow_dangling hhead).mpr ⟨rfl, rfl⟩, rfl, ?_⟩
    intro other found hother
    exact .inl ((danglesBelow_dangling hhead).mp hother).1
  | related relation target =>
    simp only [hhead] at h ⊢
    refine (((hbelow (some target) h.first).cons head.1).congr fun path missing =>
      danglesBelow_related hhead).bind_ok fun inside hinside => ?_
    have hafter := h.andThen hinside
    cases hkind : relation.kind with
    | embedded => exact ⟨_, rfl⟩
    | foreignKey =>
      simp only [hkind] at hafter ⊢
      obtain ⟨ids, hids⟩ := hafter.first _ (List.mem_singleton_self _)
      have hanswer : (Run.identifiers store target (Clause.selector inside)).result = .ok ids := by
        rw [Run.identifiers, hids]
        rfl
      exact ⟨_, by rw [Run.bind_ok hanswer]; rfl⟩

theorem resolveTree_reportsFirst (owner : Option EntityType) (tree : Tree) (htree : tree.Ordered)
    (h : (resolveTree schema store owner tree).Answered store) :
    ReportsFirst (Dangles schema owner tree) (resolveTree schema store owner tree).result := by
  induction tree using Tree.outline.induct generalizing owner with
  | case1 tree ih =>
    rw [resolveTree_eq] at h ⊢
    have hpath : ∀ head path missing, DanglesBelow schema owner head path missing →
        ∃ rest, path = head.1 :: rest := by
      rintro head path missing ⟨rest, rfl, -⟩
      exact ⟨rest, rfl⟩
    have hhead : ∀ head ∈ tree.split.heads, head.2.Ordered := fun head hh =>
      Tree.ordered_under htree ((Tree.mem_split_heads htree).mp hh)
    have hheads := ReportsFirst.mapM tree.sorted_split.1 hpath
      (fun head hh => reportsFirst_head fun type => ih ⟨head, hh⟩ type (hhead head hh)) h.first
    exact (hheads.congr fun path missing => dangles_iff htree).bind_ok fun below _ => ⟨_, rfl⟩

/-- Which error a resolution reports if the store answers: one that names the first relation without
a target that its conditions lead to, in the order of paths, and none where they lead to no such
relation. Only conditions that are written to enter a relation lead there, and all of them do where
none replaces another one. -/
theorem resolve_reports_dangling {type : EntityType} (htree : tree.Ordered)
    (hanswered : (resolve schema store type tree).Answered store) :
    ((∃ e, (resolve schema store type tree).result = .error e) ↔
        ∃ path missing, Dangles schema (some type) tree path missing) ∧
      (∀ e, (resolve schema store type tree).result = .error e →
        ∃ path missing, Dangles schema (some type) tree path missing ∧
          e = .missingTarget missing.1 missing.2 ∧
          ∀ other found, Dangles schema (some type) tree other found →
            other = path ∨ List.Lex (· < ·) path other) ∧
      (∀ path missing, Dangles schema (some type) tree path missing → tree.Enters path) ∧
      (PrefixFree tree.leaves → ∀ path missing, tree.Enters path →
        schema.dangling? (some type) path = some missing →
          Dangles schema (some type) tree path missing) := by
  have hreports : ReportsFirst (Dangles schema (some type) tree)
      (resolve schema store type tree).result :=
    resolveTree_reportsFirst (some type) tree htree hanswered
  refine ⟨?_, ?_, ?_, ?_⟩
  · cases hr : (resolve schema store type tree).result with
    | ok clauses =>
      rw [hr] at hreports
      exact ⟨nofun, fun ⟨path, missing, hpath⟩ => absurd hpath (hreports path missing)⟩
    | error e =>
      rw [hr] at hreports
      obtain ⟨path, missing, hpath, -⟩ := hreports
      exact ⟨fun _ => ⟨path, missing, hpath⟩, fun _ => ⟨e, rfl⟩⟩
  · intro e he
    rw [he] at hreports
    exact hreports
  · rintro path missing ⟨hfollow, hdangling⟩
    refine Tree.enters_of_follow htree ?_ hfollow
    rintro rfl
    cases hdangling
  · intro hfree path missing henters hdangling
    exact ⟨Tree.follow_of_enters htree hfree henters, hdangling⟩

end Resolution

theorem resolve_reports_dangling_boss :
    let owner : Entity :=
      ⟨[("boss", ⟨.foreignKey, none, none⟩), ("team", ⟨.embedded, some ⟨"Team"⟩, none⟩)], []⟩
    let project : Entity := ⟨[("author", ⟨.foreignKey, some ⟨"Owner"⟩, none⟩),
      ("owner", ⟨.foreignKey, some ⟨"Owner"⟩, none⟩)], []⟩
    let team : Entity := ⟨[("lead", ⟨.foreignKey, none, none⟩)], []⟩
    let schema : Schema := ⟨[("Owner", owner), ("Project", project), ("Team", team)]⟩
    let store : MemoryStore := .ofEntries [(⟨"Owner"⟩, [("_id", .int32 7), ("name", .text "X")])]
    let tree : Tree :=
      [("author", .nested [("boss", .scalar (.int32 7)), ("name", .scalar (.text "X"))]),
        ("meta", .nested [("owner", .nested [("boss", .nested [])])]),
        ("owner", .nested [("team", .nested [("lead", .nested [])])]), ("owner.boss", .nested [])]
    tree.Ordered ∧ (resolve schema store ⟨"Project"⟩ tree).Answered store ∧
      (resolve schema store ⟨"Project"⟩ tree).result = .error (.missingTarget ⟨"Owner"⟩ "boss") ∧
      Dangles schema (some ⟨"Project"⟩) tree ["owner", "boss"] (⟨"Owner"⟩, "boss") ∧
      Dangles schema (some ⟨"Project"⟩) tree ["owner", "team", "lead"] (⟨"Team"⟩, "lead") ∧
      (∃ path missing, Dangles schema (some ⟨"Project"⟩) tree path missing ∧
        AccessError.missingTarget ⟨"Owner"⟩ "boss" = .missingTarget missing.1 missing.2 ∧
        ∀ other found, Dangles schema (some ⟨"Project"⟩) tree other found →
          other = path ∨ List.Lex (· < ·) path other) ∧
      tree.Enters ["owner", "boss"] := by
  intro owner project team schema store tree
  have hordered : tree.Ordered := Tree.ordered_ofDocument
    [("author", .document [("boss", .int32 7), ("name", .text "X")]),
      ("meta", .document [("owner", .document [("boss", .document [])])]),
      ("owner", .document [("team", .document [("lead", .document [])])]),
      ("owner.boss", .document [])]
  have houtline : tree.outline = .mk [] [
      ("author", .mk [("boss", .scalar (.int32 7)), ("name", .scalar (.text "X"))] []),
      ("meta", .mk [] [("owner", .mk [] [("boss", .mk [] [])])]),
      ("owner", .mk [] [("boss", .mk [] []), ("team", .mk [] [("lead", .mk [] [])])])] := by
    with_unfolding_all rfl
  have hresolve : resolve schema store ⟨"Project"⟩ tree =
      ⟨[⟨.identifiers, ⟨"Owner"⟩, ⟨[("boss", .int32 7), ("name", .text "X")]⟩⟩],
        .error (.missingTarget ⟨"Owner"⟩ "boss")⟩ := by
    rw [resolve, houtline]
    rfl
  have hanswered : (resolve schema store ⟨"Project"⟩ tree).Answered store := by
    rw [Run.Answered, hresolve]
    intro query hq
    rw [List.mem_singleton.mp hq]
    exact ⟨[], by with_unfolding_all rfl⟩
  have hresult := congrArg Run.result hresolve
  have hboss : Dangles schema (some ⟨"Project"⟩) tree ["owner", "boss"] (⟨"Owner"⟩, "boss") :=
    ⟨by decide +kernel, rfl⟩
  have hlead : Dangles schema (some ⟨"Project"⟩) tree ["owner", "team", "lead"]
      (⟨"Team"⟩, "lead") :=
    ⟨by decide +kernel, rfl⟩
  obtain ⟨-, hfirst, henters, -⟩ := resolve_reports_dangling hordered hanswered
  exact ⟨hordered, hanswered, hresult, hboss, hlead, hfirst _ hresult, henters _ _ hboss⟩

end AccessRules
