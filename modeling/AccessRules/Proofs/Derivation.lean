import AccessRules.Resolution

/-! Derivations of clauses. A resolution that succeeds is read as a derivation over the heads of an
outline; what holds of every resolution is then an induction with one case for each way in which a
head becomes a clause. -/
namespace AccessRules

namespace Run
variable {α β : Type}

theorem result_bind_ok {run : Run α} {next : α → Run β} {b : β}
    (h : (run >>= next).result = .ok b) :
    ∃ a, run.result = .ok a ∧ (next a).result = .ok b := by
  rw [result_bind] at h
  cases hr : run.result with
  | error e => rw [hr] at h; cases h
  | ok a => rw [hr] at h; exact ⟨a, rfl, h⟩

end Run

namespace Outline

def ownClauses (o : Outline) : List Clause := o.direct.map fun entry => .field entry.1 entry.2

section Resolution
variable {schema : Schema} {store : Store} {owner : Option EntityType}

def resolveHead (schema : Schema) (store : Store) (owner : Option EntityType)
    (head : String × Outline) : Run Clause :=
  headClause schema store owner head.1 head.2.isEmpty fun type => head.2.resolve schema store type

theorem resolveHeads_cons (head : String × Outline) (rest : List (String × Outline)) :
    resolveHeads schema store owner (head :: rest) = (do
      let clause ← resolveHead schema store owner head
      let clauses ← resolveHeads schema store owner rest
      pure (clause :: clauses)) := by
  rw [resolveHeads]
  rfl

theorem resolve_eq (o : Outline) : o.resolve schema store owner = (do
    let below ← resolveHeads schema store owner o.heads
    pure (o.ownClauses ++ below)) := by
  cases o
  rw [resolve]
  rfl

end Resolution
end Outline

/-- Heads of an outline, below an owner of a known type or of none, and the clauses that they
resolve to. -/
inductive Resolves (schema : Schema) (store : Store) :
    Option EntityType → List (String × Outline) → List Clause → Prop where
  | nil {owner} : Resolves schema store owner [] []
  /-- A plain field with nothing below it. -/
  | empty {owner field inside rest more} :
    schema.head owner field = .plain → inside.isEmpty = true →
    Resolves schema store owner rest more →
    Resolves schema store owner ((field, inside) :: rest) (.field field (.nested []) :: more)
  | plain {owner field inside below rest more} :
    schema.head owner field = .plain → inside.isEmpty = false →
    Resolves schema store none inside.heads below →
    Resolves schema store owner rest more →
    Resolves schema store owner ((field, inside) :: rest)
      (.path field (inside.ownClauses ++ below) :: more)
  | embedded {owner field inside relation target below rest more} :
    schema.head owner field = .related relation target → relation.kind = .embedded →
    Resolves schema store (some target) inside.heads below →
    Resolves schema store owner rest more →
    Resolves schema store owner ((field, inside) :: rest)
      (.embedded field target (inside.ownClauses ++ below) :: more)
  | foreignKey {owner field inside relation target below ids rest more} :
    schema.head owner field = .related relation target → relation.kind = .foreignKey →
    Resolves schema store (some target) inside.heads below →
    store.identifiers target (Clause.selector (inside.ownClauses ++ below)) = .ok ids →
    Resolves schema store owner rest more →
    Resolves schema store owner ((field, inside) :: rest)
      (.foreignKey (relation.keyField field) ids :: more)

namespace Outline
variable {schema : Schema} {store : Store}

mutual

theorem resolves_of_ok (o : Outline) {owner : Option EntityType} {clauses : List Clause}
    (h : (o.resolve schema store owner).result = .ok clauses) :
    ∃ below, Resolves schema store owner o.heads below ∧ clauses = o.ownClauses ++ below := by
  match o with
  | .mk direct heads =>
    rw [Outline.resolve] at h
    obtain ⟨below, hbelow, h⟩ := Run.result_bind_ok h
    exact ⟨below, resolvesHeads_of_ok heads hbelow, (Except.ok.inj h).symm⟩

theorem resolvesHeads_of_ok (heads : List (String × Outline)) {owner : Option EntityType}
    {clauses : List Clause}
    (h : (Outline.resolveHeads schema store owner heads).result = .ok clauses) :
    Resolves schema store owner heads clauses := by
  match heads with
  | [] =>
    rw [Outline.resolveHeads] at h
    cases h
    exact .nil
  | (field, inside) :: rest =>
    rw [Outline.resolveHeads] at h
    obtain ⟨clause, hclause, h⟩ := Run.result_bind_ok h
    obtain ⟨more, hmore, h⟩ := Run.result_bind_ok h
    cases h
    have hrest := resolvesHeads_of_ok rest hmore
    unfold headClause at hclause
    split at hclause
    · next hhead =>
      split at hclause
      · next hempty =>
        cases hclause
        exact .empty hhead hempty hrest
      · next hempty =>
        obtain ⟨below, hbelow, hclause⟩ := Run.result_bind_ok hclause
        cases hclause
        obtain ⟨found, hfound, rfl⟩ := resolves_of_ok inside hbelow
        exact .plain hhead (by simpa using hempty) hfound hrest
    · cases hclause
    · next relation target hhead =>
      obtain ⟨below, hbelow, hclause⟩ := Run.result_bind_ok hclause
      obtain ⟨found, hfound, rfl⟩ := resolves_of_ok inside hbelow
      split at hclause
      · next hkind =>
        cases hclause
        exact .embedded hhead hkind hfound hrest
      · next hkind =>
        obtain ⟨ids, hids, hclause⟩ := Run.result_bind_ok hclause
        cases hclause
        refine .foreignKey hhead hkind hfound ?_ hrest
        unfold Run.identifiers at hids
        cases hstore : store.identifiers target (Clause.selector (inside.ownClauses ++ found)) with
        | error e =>
          rw [hstore] at hids
          cases hids
        | ok found =>
          rw [hstore] at hids
          cases hids
          rfl

end

end Outline

namespace Schema
variable {schema : Schema} {owner : Option EntityType} {field : String} {relation : Relation}
  {target : EntityType}

theorem relation_of_head (h : schema.head owner field = .related relation target) :
    ∃ type, owner = some type ∧ schema.relation? type field = some relation := by
  unfold head at h
  split at h
  · cases h
  · next type =>
    split at h
    · cases h
    · next found hfound =>
      split at h
      · cases h
        exact ⟨type, rfl, hfound⟩
      · cases h

theorem exists_entity_of_relation {type : EntityType}
    (h : schema.relation? type field = some relation) :
    ∃ entity ∈ schema.entities, (field, relation) ∈ entity.2.relations := by
  unfold relation? relations? entity? at h
  obtain ⟨relations, hrelations, h⟩ := Option.bind_eq_some_iff.mp h
  obtain ⟨entity, hentity, rfl⟩ := Option.map_eq_some_iff.mp hrelations
  exact ⟨(type.name, entity), KeyMap.mem_of_lookup hentity, KeyMap.mem_of_lookup h⟩

end Schema

/-- The key of the clause for a head: the field, unless a foreign key stands in its place. -/
def Schema.headKey (schema : Schema) (owner : Option EntityType) (field : String) : String :=
  match schema.head owner field with
  | .related relation _ =>
    match relation.kind with
    | .embedded => field
    | .foreignKey => relation.keyField field
  | _ => field

namespace Schema
variable {schema : Schema} {owner : Option EntityType} {field : String} {relation : Relation}
  {target : EntityType}

theorem headKey_plain (h : schema.head owner field = .plain) :
    schema.headKey owner field = field := by
  rw [headKey, h]

theorem headKey_embedded (h : schema.head owner field = .related relation target)
    (hkind : relation.kind = .embedded) : schema.headKey owner field = field := by
  rw [headKey, h]
  simp only [hkind]

theorem headKey_foreignKey (h : schema.head owner field = .related relation target)
    (hkind : relation.kind = .foreignKey) :
    schema.headKey owner field = relation.keyField field := by
  rw [headKey, h]
  simp only [hkind]

end Schema

namespace Resolves
variable {schema : Schema} {store : Store} {owner : Option EntityType}
  {heads : List (String × Outline)} {clauses : List Clause}

theorem map_key (h : Resolves schema store owner heads clauses) :
    clauses.map Clause.key = heads.map fun head => schema.headKey owner head.1 := by
  induction h with
  | nil => rfl
  | empty hhead _ _ ih | plain hhead _ _ _ _ ih =>
    rw [List.map_cons, List.map_cons, ih, Schema.headKey_plain hhead]
    rfl
  | embedded hhead hkind _ _ _ ih =>
    rw [List.map_cons, List.map_cons, ih, Schema.headKey_embedded hhead hkind]
    rfl
  | foreignKey hhead hkind _ _ _ _ ih =>
    rw [List.map_cons, List.map_cons, ih, Schema.headKey_foreignKey hhead hkind]
    rfl

theorem isEmpty_own_append {o : Outline} (h : Resolves schema store owner o.heads clauses) :
    (o.ownClauses ++ clauses).isEmpty = o.isEmpty := by
  have hheads : clauses.isEmpty = o.heads.isEmpty := by
    have hkeys := congrArg List.isEmpty h.map_key
    rwa [List.isEmpty_map, List.isEmpty_map] at hkeys
  have hown : o.ownClauses.isEmpty = o.direct.isEmpty := List.isEmpty_map
  rw [Outline.isEmpty, ← hown, ← hheads]
  cases o.ownClauses <;> rfl

end Resolves

/-- Two resolutions of the same heads over two stores, which go the same way. -/
inductive ResolvesTwice (schema : Schema) (store store' : Store) :
    Option EntityType → List (String × Outline) → List Clause → List Clause → Prop where
  | nil {owner} : ResolvesTwice schema store store' owner [] [] []
  | empty {owner field inside rest more more'} :
    schema.head owner field = .plain → inside.isEmpty = true →
    ResolvesTwice schema store store' owner rest more more' →
    ResolvesTwice schema store store' owner ((field, inside) :: rest)
      (.field field (.nested []) :: more) (.field field (.nested []) :: more')
  | plain {owner field inside below below' rest more more'} :
    schema.head owner field = .plain → inside.isEmpty = false →
    ResolvesTwice schema store store' none inside.heads below below' →
    ResolvesTwice schema store store' owner rest more more' →
    ResolvesTwice schema store store' owner ((field, inside) :: rest)
      (.path field (inside.ownClauses ++ below) :: more)
      (.path field (inside.ownClauses ++ below') :: more')
  | embedded {owner field inside relation target below below' rest more more'} :
    schema.head owner field = .related relation target → relation.kind = .embedded →
    ResolvesTwice schema store store' (some target) inside.heads below below' →
    ResolvesTwice schema store store' owner rest more more' →
    ResolvesTwice schema store store' owner ((field, inside) :: rest)
      (.embedded field target (inside.ownClauses ++ below) :: more)
      (.embedded field target (inside.ownClauses ++ below') :: more')
  | foreignKey {owner field inside relation target below below' ids ids' rest more more'} :
    schema.head owner field = .related relation target → relation.kind = .foreignKey →
    ResolvesTwice schema store store' (some target) inside.heads below below' →
    store.identifiers target (Clause.selector (inside.ownClauses ++ below)) = .ok ids →
    store'.identifiers target (Clause.selector (inside.ownClauses ++ below')) = .ok ids' →
    ResolvesTwice schema store store' owner rest more more' →
    ResolvesTwice schema store store' owner ((field, inside) :: rest)
      (.foreignKey (relation.keyField field) ids :: more)
      (.foreignKey (relation.keyField field) ids' :: more')

section Twice
variable {schema : Schema} {store store' : Store} {owner : Option EntityType}
  {heads : List (String × Outline)} {clauses clauses' : List Clause}

theorem Resolves.twice (h : Resolves schema store owner heads clauses)
    (h' : Resolves schema store' owner heads clauses') :
    ResolvesTwice schema store store' owner heads clauses clauses' := by
  induction h generalizing clauses' with
  | nil =>
    cases h'
    exact .nil
  | empty hhead hempty _ ih =>
    cases h' with
    | empty _ _ hrest => exact .empty hhead hempty (ih hrest)
    | plain _ hfull => simp [hempty] at hfull
    | embedded hhead' | foreignKey hhead' => simp [hhead] at hhead'
  | plain hhead hfull _ _ ihBelow ih =>
    cases h' with
    | empty _ hempty => simp [hfull] at hempty
    | plain _ _ hbelow hrest => exact .plain hhead hfull (ihBelow hbelow) (ih hrest)
    | embedded hhead' | foreignKey hhead' => simp [hhead] at hhead'
  | embedded hhead hkind _ _ ihBelow ih =>
    cases h' with
    | empty hhead' | plain hhead' => simp [hhead] at hhead'
    | embedded hhead' _ hbelow hrest =>
      cases hhead.symm.trans hhead'
      exact .embedded hhead hkind (ihBelow hbelow) (ih hrest)
    | foreignKey hhead' hkind' =>
      cases hhead.symm.trans hhead'
      simp [hkind] at hkind'
  | foreignKey hhead hkind _ hids _ ihBelow ih =>
    cases h' with
    | empty hhead' | plain hhead' => simp [hhead] at hhead'
    | embedded hhead' hkind' =>
      cases hhead.symm.trans hhead'
      simp [hkind] at hkind'
    | foreignKey hhead' _ hbelow hids' hrest =>
      cases hhead.symm.trans hhead'
      exact .foreignKey hhead hkind (ihBelow hbelow) hids hids' (ih hrest)

theorem ResolvesTwice.left (h : ResolvesTwice schema store store' owner heads clauses clauses') :
    Resolves schema store owner heads clauses := by
  induction h with
  | nil => exact .nil
  | empty hhead hempty _ ih => exact .empty hhead hempty ih
  | plain hhead hfull _ _ ihBelow ih => exact .plain hhead hfull ihBelow ih
  | embedded hhead hkind _ _ ihBelow ih => exact .embedded hhead hkind ihBelow ih
  | foreignKey hhead hkind _ hids _ _ ihBelow ih => exact .foreignKey hhead hkind ihBelow hids ih

theorem Resolves.unique (h : Resolves schema store owner heads clauses)
    (h' : Resolves schema store owner heads clauses') : clauses = clauses' := by
  have heq : ∀ store', store' = store → ∀ {owner heads clauses clauses'},
      ResolvesTwice schema store store' owner heads clauses clauses' → clauses = clauses' := by
    intro store' hstore owner heads clauses clauses' h
    induction h with
    | nil => rfl
    | empty _ _ _ ih => rw [ih]
    | plain _ _ _ _ ihBelow ih => rw [ihBelow, ih]
    | embedded _ _ _ _ ihBelow ih => rw [ihBelow, ih]
    | foreignKey _ _ _ hids hids' _ ihBelow ih =>
      rw [hstore, ← ihBelow, hids] at hids'
      rw [ih, Except.ok.inj hids']
  exact heq store rfl (h.twice h')

end Twice
end AccessRules
