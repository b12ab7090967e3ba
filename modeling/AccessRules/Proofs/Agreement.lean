import AccessRules.Pattern.Syntax
import AccessRules.Permission
import AccessRules.Proofs.CompiledScope
import AccessRules.Proofs.Meaning

/-! Scopes and checks agree. A check walks into subdocuments where a scope reads dotted paths, and
asks every element where a scope asks for one; on entities that leave no choice between the two
readings, a stored entity is selected exactly if it is permitted. -/
namespace AccessRules

namespace Clause

mutual

/-- Whether a clause has one reading on an entity: one element, or none that could be one, beside a
clause on elements, and at most one subdocument beside a clause on a plain field. -/
def unambiguous : Clause → Document → Bool
  | field _ _, _ => true
  | foreignKey _ _, _ => true
  | embedded key _ inside, entity =>
    match entity.lookup key with
    | none => false
    | some (.atom .null) => false
    | some (.array [.document element]) => allUnambiguous inside element
    | some (.array items) => items.length == 1
    | some _ => true
  | path key inside, entity =>
    isPathOnly inside (entity.lookup key) ||
      match entity.lookup key with
      | some (.document element) => allUnambiguous inside element
      | some (.array [.document element]) => allUnambiguous inside element
      | some (.array items) => items.length < 2
      | _ => true

def allUnambiguous : List Clause → Document → Bool
  | [], _ => true
  | clause :: rest, entity => clause.unambiguous entity && allUnambiguous rest entity

end

@[simp] theorem allUnambiguous_iff {clauses : List Clause} {entity : Document} :
    allUnambiguous clauses entity = true ↔
      ∀ clause ∈ clauses, clause.unambiguous entity = true := by
  induction clauses with
  | nil => simp [allUnambiguous]
  | cons clause rest ih => simp [allUnambiguous, ih]

section Plain
variable {clauses : List Clause}

theorem PlainAll.allUnambiguous_empty (h : PlainAll clauses) :
    allUnambiguous clauses [] = true := by
  refine allUnambiguous_iff.mpr fun clause hc => ?_
  cases clause with
  | field key condition => rw [unambiguous]
  | path key inside => simp [unambiguous]
  | embedded key element inside => exact (plainAll_iff.mp h _ hc).elim
  | foreignKey key ids => exact (plainAll_iff.mp h _ hc).elim

theorem PlainAll.undividedAll (h : PlainAll clauses) : UndividedAll clauses := by
  refine undividedAll_iff.mpr fun clause hc => ?_
  cases clause with
  | field key condition => trivial
  | path key inside => trivial
  | embedded key element inside => exact (plainAll_iff.mp h _ hc).elim
  | foreignKey key ids => exact (plainAll_iff.mp h _ hc).elim

theorem PlainAll.allLegible (h : PlainAll clauses) : allLegible clauses = true := by
  refine allLegible_iff.mpr fun clause hc => ?_
  cases clause with
  | field key condition => simp [legible]
  | path key inside => simp [legible]
  | embedded key element inside => exact (plainAll_iff.mp h _ hc).elim
  | foreignKey key ids => exact (plainAll_iff.mp h _ hc).elim

theorem PlainAll.allMet_eq [Pattern.Engine] (h : PlainAll clauses) (entity : Document) :
    allMet clauses entity = (pairsOf clauses).all fun pair => Filter.accepts [pair] entity := by
  induction clauses with
  | nil => rfl
  | cons clause rest ih =>
    rw [allMet, pairsOf, List.all_append, ih h.2]
    congr 1
    cases clause with
    | field key condition => simp [met, pairs]
    | path key inside => rw [met]
    | embedded key element inside => exact h.1.elim
    | foreignKey key ids => exact h.1.elim

theorem Plain.head_segments {clause : Clause} (h : clause.Plain) {pair : String × Value}
    (hp : pair ∈ clause.pairs) : (Path.segments pair.1).head? = some clause.key := by
  cases clause with
  | field key condition =>
    rw [pairs, List.mem_singleton] at hp
    rw [hp, Path.segments_field h.noDot]
    rfl
  | path key inside =>
    rw [pairs, List.mem_map] at hp
    obtain ⟨below, -, rfl⟩ := hp
    rw [Path.segments_below h.1.noDot]
    rfl
  | embedded key element inside => exact h.elim
  | foreignKey key ids => exact h.elim

theorem Plain.noToken {clause : Clause} (h : clause.Plain) {pair : String × Value}
    (hp : pair ∈ clause.pairs) : Operator.isToken pair.1 = false := by
  rw [isToken_of_mem_pairs hp]
  cases clause with
  | field key condition => exact FieldName.noToken h
  | path key inside => exact h.1.noToken
  | embedded key element inside => exact h.elim
  | foreignKey key ids => exact h.elim

end Plain

theorem accepts_below [Pattern.Engine] {key : String} (hk : FieldName key) {pair : String × Value}
    (hp : Operator.isToken pair.1 = false) {entity doc : Document}
    (hleaves : Path.leaves entity (key ++ "." ++ pair.1) = Path.leaves doc pair.1) :
    Filter.accepts [(key ++ "." ++ pair.1, pair.2)] entity = Filter.accepts [pair] doc := by
  have hbelow : Operator.ofKey? (key ++ "." ++ pair.1) = none :=
    Operator.ofKey?_eq_none ((Operator.isToken_append key pair.1).trans hk.noToken)
  unfold Filter.accepts
  rw [Filter.holds_singleton, Filter.holds_singleton, Filter.fieldHolds_path hbelow,
    Filter.fieldHolds_path (Operator.ofKey?_eq_none hp), hleaves]

theorem met_path [Pattern.Engine] {key : String} (hk : FieldName key) {inside : List Clause}
    (h : PlainAll inside) {entity doc : Document}
    (hleaves : ∀ pair ∈ pairsOf inside,
      Path.leaves entity (key ++ "." ++ pair.1) = Path.leaves doc pair.1) :
    (path key inside).met entity = allMet inside doc := by
  rw [h.allMet_eq, met, pairs, List.all_map, Bool.eq_iff_iff, List.all_eq_true, List.all_eq_true]
  refine forall₂_congr fun pair hp => ?_
  obtain ⟨clause, hc, hpair⟩ := mem_pairsOf.mp hp
  have htoken := (plainAll_iff.mp h clause hc).noToken hpair
  rw [Function.comp_apply, accepts_below hk htoken (hleaves pair hp)]

theorem noPosition_of_not_isPathOnly {inside : List Clause} (h : PlainAll inside)
    {value : Option Value} (hpath : isPathOnly inside value = false) :
    ∀ pair ∈ pairsOf inside, ∀ segment ∈ (Path.segments pair.1).head?,
      Text.position? segment = none := by
  intro pair hp segment hs
  obtain ⟨clause, hc, hpair⟩ := mem_pairsOf.mp hp
  rw [(plainAll_iff.mp h clause hc).head_segments hpair] at hs
  cases hs
  unfold isPathOnly at hpath
  rw [Bool.or_eq_false_iff, List.any_eq_false] at hpath
  simpa using hpath.1 clause hc

theorem holds_pairsOf [Pattern.Engine] (clauses : List Clause) (entity : Document) :
    Filter.holds (pairsOf clauses) entity =
      clauses.allM fun clause => Filter.holds clause.pairs entity := by
  induction clauses with
  | nil => rw [pairsOf, Filter.holds, List.allM_nil]
  | cons clause rest ih => rw [pairsOf, Filter.holds_append, List.allM_cons, ih]

theorem allHold_eq_allM [Pattern.Engine] (schema : Schema) (clauses : List Clause)
    (entity : Document) :
    allHold schema clauses entity = clauses.allM fun clause => clause.holds schema entity := by
  induction clauses with
  | nil => rw [allHold, List.allM_nil]
  | cons clause rest ih => rw [allHold, List.allM_cons, ih]

theorem decides_afterOwn_truth [Pattern.Engine] {clauses : List Clause} {entity : Document}
    {truth : Clause → Bool} {rest : Except FilterError Bool}
    (hown : ∀ clause ∈ clauses, clause.isOwn = true →
      Decides (Filter.holds clause.pairs entity) (truth clause))
    (hrest : Decides rest (clauses.all fun clause => clause.isOwn || truth clause)) :
    Decides (afterOwn clauses entity rest) (clauses.all truth) := by
  have hfilter : Decides (Filter.holds (document (clauses.filter isOwn)) entity)
      ((clauses.filter isOwn).all truth) := by
    rw [holds_document, holds_pairsOf]
    refine Decides.allM fun clause hc => ?_
    obtain ⟨hc, ho⟩ := List.mem_filter.mp hc
    exact hown clause hc ho
  have hsplit : clauses.all truth = ((clauses.filter isOwn).all truth &&
      clauses.all fun clause => clause.isOwn || truth clause) := by
    rw [List.all_filter, Bool.eq_iff_iff, Bool.and_eq_true, List.all_eq_true, List.all_eq_true,
      List.all_eq_true, ← forall₂_and]
    refine forall₂_congr fun clause _ => ?_
    cases clause.isOwn <;> simp
  rw [hsplit]
  exact hfilter.andThen fun _ => hrest

theorem decides_afterOwn [Pattern.Engine] {clauses : List Clause} {entity : Document}
    {rest : Except FilterError Bool}
    (hrest : Decides rest (clauses.all fun clause => clause.isOwn || clause.met entity)) :
    Decides (afterOwn clauses entity rest) (allMet clauses entity) := by
  rw [allMet_eq_all]
  refine decides_afterOwn_truth (fun clause _ ho => ?_) hrest
  cases clause with
  | field key condition => exact decides_met (.field key condition) trivial rfl entity
  | foreignKey key ids => exact decides_met (.foreignKey key ids) trivial rfl entity
  | path key inside => cases ho
  | embedded key element inside => cases ho

theorem embedded_reading {key : String} {element : EntityType} {inside : List Clause}
    {entity : Document} (ha : (embedded key element inside).unambiguous entity = true) :
    ∃ value, entity.lookup key = some value ∧ isVacant (some value) = false ∧
      ∀ items, value = .array items → ∃ item, items = [item] ∧
        ∀ doc, item = .document doc → allUnambiguous inside doc = true := by
  rw [unambiguous] at ha
  split at ha
  · cases ha
  · cases ha
  · next doc hv =>
    refine ⟨_, hv, rfl, fun items hi => ⟨.document doc, ?_, fun d hd => ?_⟩⟩
    · cases hi
      rfl
    · cases hd
      exact ha
  · next items hother hv =>
    have hlen : items.length = 1 := by simpa using ha
    obtain ⟨item, rfl⟩ := List.length_eq_one_iff.mp hlen
    refine ⟨_, hv, rfl, fun _ hi => ⟨item, ?_, fun doc hd => ?_⟩⟩
    · cases hi
      rfl
    · exact (hother doc (by rw [hd])).elim
  · next value hnull _ harray hv =>
    refine ⟨value, hv, ?_, fun items hi => (harray items hi).elim⟩
    unfold isVacant
    split <;> simp_all

theorem path_reading {key : String} {inside : List Clause} {entity : Document}
    (hpath : isPathOnly inside (entity.lookup key) = false)
    (ha : (path key inside).unambiguous entity = true) :
    isVacant (entity.lookup key) = true ∨
      ∃ doc, allUnambiguous inside doc = true ∧
        (entity.lookup key = some (.document doc) ∨
          entity.lookup key = some (.array [.document doc])) := by
  rw [unambiguous, hpath, Bool.false_or] at ha
  split at ha
  · next doc hv => exact .inr ⟨doc, ha, .inl hv⟩
  · next doc hv => exact .inr ⟨doc, ha, .inr hv⟩
  · next items hother hv =>
    -- every item is a document here, and there are fewer than two
    rw [hv] at hpath
    match items with
    | [] => exact .inl (by rw [hv]; rfl)
    | [item] =>
      cases item with
      | document doc => exact (hother doc rfl).elim
      | atom a => simp [isPathOnly] at hpath
      | array more => simp [isPathOnly] at hpath
      | scopedCode source scope => simp [isPathOnly] at hpath
    | _ :: _ :: _ =>
      simp only [List.length_cons, decide_eq_true_eq] at ha
      omega
  · next hdocument _ harray =>
    refine .inl ?_
    cases hv : entity.lookup key with
    | none => rfl
    | some value =>
      rw [hv] at hpath
      cases value with
      | atom a =>
        cases a with
        | null => rfl
        | _ => simp [isPathOnly] at hpath
      | document doc => exact (hdocument doc hv).elim
      | array items => exact (harray items hv).elim
      | scopedCode source scope => simp [isPathOnly] at hpath

theorem everyDocument_singleton (item : Value) (holds : Document → Except FilterError Bool) :
    everyDocument [item] holds =
      match item with
      | .document element => holds element
      | _ => pure false := by
  rw [everyDocument, List.allM_cons, List.allM_nil]
  exact confirm_eq _

variable [Pattern.Engine]

section Walk
variable (schema : Schema)

theorem decides_embedded {key : String} {element : EntityType} {inside : List Clause}
    {entity : Document} (ha : (embedded key element inside).unambiguous entity = true)
    (inner : ∀ doc, allUnambiguous inside doc = true →
      Decides (afterOwn inside doc (allHold schema inside doc)) (allMet inside doc)) :
    Decides ((embedded key element inside).holds schema entity)
      ((embedded key element inside).met entity) := by
  obtain ⟨value, hv, hvacant, hitems⟩ := embedded_reading ha
  rw [Clause.holds, met, hv, if_neg (by simp [hvacant])]
  cases value with
  | array items =>
    obtain ⟨item, rfl, hitem⟩ := hitems items rfl
    change Decides (everyDocument [item] _) _
    rw [everyDocument_singleton, anyElement, List.any_cons, List.any_nil, Bool.or_false]
    cases item with
    | document doc => exact inner doc (hitem doc rfl)
    | atom a => exact Decides.pure_iff.mpr rfl
    | array more => exact Decides.pure_iff.mpr rfl
    | scopedCode source scope => exact Decides.pure_iff.mpr rfl
  | atom a => exact Decides.pure_iff.mpr rfl
  | document doc => exact Decides.pure_iff.mpr rfl
  | scopedCode source scope => exact Decides.pure_iff.mpr rfl

theorem decides_path {key : String} (hk : FieldName key) {inside : List Clause}
    (h : PlainAll inside) {entity : Document}
    (ha : (path key inside).unambiguous entity = true)
    (inner : ∀ doc, allUnambiguous inside doc = true →
      Decides (afterOwn inside doc (allHold schema inside doc)) (allMet inside doc)) :
    Decides ((path key inside).holds schema entity) ((path key inside).met entity) := by
  rw [Clause.holds]
  by_cases hpath : isPathOnly inside (entity.lookup key) = true
  · have hwhole := decides_allMet [path key inside] ⟨trivial, trivial⟩
      (by simp [allLegible, legible]) entity
    rw [allMet, allMet, Bool.and_true] at hwhole
    simpa [hpath] using hwhole
  rw [Bool.not_eq_true] at hpath
  have hposition := noPosition_of_not_isPathOnly h hpath
  rcases path_reading hpath ha with hvacant | ⟨doc, hdoc, hv⟩
  · have hmet : (path key inside).met entity = allMet inside [] := by
      refine met_path hk h fun pair hp => ?_
      rw [Path.leaves_below_vacant hk.noDot _ _ hvacant, Path.leaves_empty]
    rw [hmet]
    simpa [hpath, hvacant] using inner [] h.allUnambiguous_empty
  · have hmet : (path key inside).met entity = allMet inside doc := by
      refine met_path hk h fun pair hp => ?_
      rcases hv with hv | hv
      · exact Path.leaves_below_document hk.noDot _ _ hv
      · exact Path.leaves_below_only hk.noDot _ _ hv (hposition pair hp)
    rw [hmet]
    rcases hv with hv | hv
    · rw [hv] at hpath ⊢
      simpa [hpath, isVacant] using inner doc hdoc
    · rw [hv] at hpath ⊢
      simpa [hpath, isVacant, everyDocument_singleton] using inner doc hdoc

mutual

theorem decides_holds (clause : Clause) (h : clause.Literal) (hu : clause.Undivided)
    (hl : clause.legible = true) (entity : Document) (ha : clause.unambiguous entity = true) :
    Decides (clause.holds schema entity) (clause.isOwn || clause.met entity) := by
  match clause with
  | field key condition => exact Decides.pure_iff.mpr rfl
  | foreignKey key ids => exact Decides.pure_iff.mpr rfl
  | embedded key element inside =>
    rw [legible, Bool.and_eq_true] at hl
    exact decides_embedded schema ha fun doc hdoc =>
      decides_afterOwn (decides_allHold inside h.2 hu.2 hl.2 doc hdoc)
  | path key inside =>
    exact decides_path schema h.1 h.2 ha fun doc hdoc =>
      decides_afterOwn (decides_allHold inside h.2.literalAll h.2.undividedAll h.2.allLegible
        doc hdoc)

theorem decides_allHold (clauses : List Clause) (h : LiteralAll clauses)
    (hu : UndividedAll clauses) (hl : allLegible clauses = true) (entity : Document)
    (ha : allUnambiguous clauses entity = true) :
    Decides (allHold schema clauses entity)
      (clauses.all fun clause => clause.isOwn || clause.met entity) := by
  match clauses with
  | [] => exact Decides.pure_iff.mpr rfl
  | clause :: rest =>
    rw [allLegible, Bool.and_eq_true] at hl
    rw [allUnambiguous, Bool.and_eq_true] at ha
    rw [allHold, List.all_cons]
    exact (decides_holds clause h.1 hu.1 hl.1 entity ha.1).andThen fun _ =>
      decides_allHold rest h.2 hu.2 hl.2 entity ha.2

end

theorem decides_satisfies {clauses : List Clause} (h : LiteralAll clauses)
    (hu : UndividedAll clauses) (hl : allLegible clauses = true) {entity : Document}
    (ha : allUnambiguous clauses entity = true) :
    Decides (satisfies schema clauses entity) (allMet clauses entity) :=
  decides_afterOwn (decides_allHold schema clauses h hu hl entity ha)

end Walk

end Clause

theorem result_check [Pattern.Engine] {schema : Schema} {store : Store} {type : EntityType}
    {tree : Tree} {clauses : List Clause}
    (h : (resolve schema store type tree).result = .ok clauses) (entity : Document) :
    (check schema store type tree entity).result =
      (satisfies schema clauses entity).mapError .filter := by
  rw [check, Run.result_bind, h]
  rfl

namespace Rule
variable {schema : Schema} {store : Store} {type : EntityType} {rule : Rule} {entity : Document}

def met [Pattern.Engine] (schema : Schema) (store : Store) (type : EntityType) (entity : Document)
    (rule : Rule) : Bool :=
  match rule.conditions with
  | .tree conditions =>
    match (resolve schema store type conditions).result with
    | .ok clauses => Clause.allMet clauses entity
    | .error _ => false
  | .scope s => Filter.accepts s.document entity
  | .block test => test entity

/-- A rule's tree can be read in one way on an entity: none of its keys is read as an operator, and
what it resolves to is unambiguous. -/
structure OneReading (schema : Schema) (store : Store) (type : EntityType) (entity : Document)
    (rule : Rule) : Prop where
  literal : ∀ tree, rule.conditions = .tree tree → tree.literal = true
  legible : ∀ tree clauses, rule.conditions = .tree tree →
    (resolve schema store type tree).result = .ok clauses → Clause.allLegible clauses = true
  unambiguous : ∀ tree clauses, rule.conditions = .tree tree →
    (resolve schema store type tree).result = .ok clauses →
      Clause.allUnambiguous clauses entity = true

theorem OneReading.of_tree {behavior : Behavior} {subject : Subject} {tree : Tree}
    {clauses : List Clause} (h : (resolve schema store type tree).result = .ok clauses)
    (hliteral : tree.literal = true) (hlegible : Clause.allLegible clauses = true)
    (hunambiguous : Clause.allUnambiguous clauses entity = true) :
    OneReading schema store type entity ⟨behavior, subject, .tree tree⟩ := by
  refine ⟨fun t ht => ?_, fun t found ht hfound => ?_, fun t found ht hfound => ?_⟩
  · cases ht
    exact hliteral
  · cases ht
    cases h.symm.trans hfound
    exact hlegible
  · cases ht
    cases h.symm.trans hfound
    exact hunambiguous

variable [Pattern.Engine]

theorem met_of_isUnconditional (h : rule.isUnconditional = true) :
    rule.met schema store type entity = true := by
  unfold isUnconditional at h
  split at h
  · next conditions hc =>
    rw [met, hc, List.isEmpty_iff.mp h]
    change (match (resolve schema store type []).result with
      | .ok clauses => Clause.allMet clauses entity
      | .error _ => false) = true
    rw [resolve_empty]
    rfl
  · cases h

theorem decides_selector (h : rule.OneReading schema store type entity) {s : Selector}
    (hs : (rule.selector schema store type).result = .ok s) :
    Decides (Filter.holds s.document entity) (rule.met schema store type entity) := by
  rw [selector] at hs
  rw [met]
  cases hc : rule.conditions with
  | tree conditions =>
    rw [hc] at hs
    obtain ⟨clauses, hclauses, hs⟩ := Run.result_bind_ok hs
    cases hs
    simp only [hclauses]
    exact Clause.decides_allMet clauses (resolve_undividedAll hclauses)
      (h.legible conditions clauses hc hclauses) entity
  | scope selector =>
    rw [hc] at hs
    cases hs
    exact Filter.decides_accepts _ _
  | block test =>
    rw [hc] at hs
    cases hs

theorem decides_holds (h : rule.OneReading schema store type entity) :
    Decides (rule.holds schema store type entity).result (rule.met schema store type entity) := by
  rw [Rule.holds, met]
  cases hc : rule.conditions with
  | tree conditions =>
    change Decides (check schema store type conditions entity).result _
    rw [check, Run.result_bind]
    cases hclauses : (resolve schema store type conditions).result with
    | error e => exact Decides.of_error e
    | ok clauses =>
      have hliteral := resolve_literalAll (h.literal conditions hc) hclauses
      simp only [hclauses]
      exact (Clause.decides_satisfies schema hliteral (resolve_undividedAll hclauses)
        (h.legible conditions clauses hc hclauses)
        (h.unambiguous conditions clauses hc hclauses)).mapError _
  | scope selector => exact (Filter.decides_accepts _ _).mapError _
  | block test => exact Decides.pure_iff.mpr rfl

/-- Going through rules in order decides the verdict that some rule allows and none denies, whatever
is left out on the way. -/
theorem decides_decideBy {truth : Rule → Bool} {rules : List Rule}
    (h : ∀ rule ∈ rules, Decides (rule.holds schema store type entity).result (truth rule))
    (allowed : Bool) :
    Decides (decideBy schema store type entity allowed rules).result
      ((allowed || rules.any fun rule => rule.allows && truth rule) &&
        !rules.any fun rule => !rule.allows && truth rule) := by
  induction rules generalizing allowed with
  | nil => exact Decides.pure_iff.mpr (by simp)
  | cons rule rest ih =>
    have ih := ih fun r hr => h r (List.mem_cons_of_mem _ hr)
    have hrule := h rule List.mem_cons_self
    rw [decideBy, List.any_cons, List.any_cons]
    by_cases ha : rule.allows = true
    · rw [if_pos ha]
      cases allowed with
      | true => simpa [ha] using ih true
      | false =>
        rw [if_neg (by simp), Run.result_bind]
        cases hr : (rule.holds schema store type entity).result with
        | error e => exact Decides.of_error e
        | ok holds =>
          rw [hr, Decides.ok_iff] at hrule
          subst hrule
          change Decides (decideBy schema store type entity (truth rule) rest).result _
          simpa [ha] using ih (truth rule)
    · rw [if_neg ha, Run.result_bind]
      cases hr : (rule.holds schema store type entity).result with
      | error e => exact Decides.of_error e
      | ok holds =>
        rw [hr, Decides.ok_iff] at hrule
        subst hrule
        cases htruth : truth rule with
        | true => exact Decides.pure_iff.mpr (by simp [ha])
        | false =>
          change Decides (decideBy schema store type entity allowed rest).result _
          simpa [ha] using ih allowed

end Rule

section Agreement
variable {schema : Schema} {store : Store} {type : EntityType} {rules : List Rule}
  {sel : Selector} {entity : Document}

variable [Pattern.Engine]

theorem decides_permits
    (hread : ∀ rule ∈ Rule.applicable rules type, rule.OneReading schema store type entity) :
    Decides (permits schema store type rules entity).result
      (Rule.permitted (Rule.met schema store type entity) (Rule.applicable rules type)) := by
  have h := Rule.decides_decideBy (fun rule hr => Rule.decides_holds (hread rule hr)) false
  rwa [Bool.false_or] at h

/-- The filter of a scope decides the verdict of the rules, unless the scope is that of a rule that
denies. -/
theorem decides_scope (hscope : (scope schema store type rules).result = .ok sel)
    (hlone : ∀ subject s, Rule.applicable rules type ≠ [⟨.deny, subject, .scope s⟩])
    (hread : ∀ rule ∈ Rule.applicable rules type, rule.OneReading schema store type entity) :
    Decides (Filter.holds sel.document entity)
      (Rule.permitted (Rule.met schema store type entity) (Rule.applicable rules type)) := by
  cases hs : Rule.loneScope? (Rule.applicable rules type) with
  | some s =>
    rw [scope_lone hscope hs]
    unfold Rule.loneScope? at hs
    split at hs
    · next behavior subject selector happ =>
      cases hs
      cases behavior with
      | deny => exact absurd happ (hlone subject s)
      | allow =>
        have hmet : Rule.permitted (Rule.met schema store type entity)
            [⟨.allow, subject, .scope s⟩] = Filter.accepts s.document entity := by
          simp [Rule.permitted, Rule.met, Rule.allows]
        rw [happ, hmet]
        exact Filter.decides_accepts _ _
    · cases hs
  | none =>
    rcases holds_scope hscope hs entity with ⟨hfalse, deny, hdeny, hda, hdu⟩ | ⟨hverdict, hown⟩
    · have hany : ((Rule.applicable rules type).any fun rule =>
          !rule.allows && rule.met schema store type entity) = true := by
        rw [List.any_eq_true]
        exact ⟨deny, hdeny, by simp [hda, Rule.met_of_isUnconditional hdu]⟩
      rw [hfalse, Rule.permitted, hany]
      exact Decides.ok_iff.mpr (by simp)
    · rw [hverdict]
      refine Rule.decides_verdict (fun hall => ?_) fun rule hr hmatters => ?_
      · obtain ⟨rule, hr, ha, hu⟩ := exists_of_anyUnconditional hall
        exact ⟨rule, hr, ha, Rule.met_of_isUnconditional hu⟩
      · exact Rule.decides_selector (hread rule hr) (hown rule hr hmatters).1

/-- Where the rules can be read in one way only, a stored entity is found by their scope exactly if
they permit acting on it. -/
theorem mem_scope_iff_permits {store : MemoryStore} {found : List Document} {permitted : Bool}
    (hlone : ∀ subject s, Rule.applicable rules type ≠ [⟨.deny, subject, .scope s⟩])
    (hread : ∀ rule ∈ Rule.applicable rules type, rule.OneReading schema store type entity)
    (hstored : entity ∈ store.documents type)
    (hscope : (scope schema store type rules).result = .ok sel)
    (hfound : store.select type sel = .ok found)
    (hpermits : (permits schema store type rules entity).result = .ok permitted) :
    entity ∈ found ↔ permitted = true := by
  obtain ⟨hfilter, hall⟩ := MemoryStore.accepted_eq hfound
  have hselected := decides_scope hscope hlone hread _ (hall entity hstored)
  rw [decides_permits hread _ hpermits, hfilter, List.mem_filter, hselected]
  exact and_iff_right hstored

end Agreement

/-- A post with one tag and a subdocument, which a rule on tags allows and a rule on the subdocument
does not deny. -/
theorem mem_scope_iff_permits_post :
    let schema : Schema := ⟨[("Post", ⟨[("tags", ⟨.embedded, some ⟨"Tag"⟩, none⟩)], []⟩)]⟩
    let post : Document := [("_id", .int32 1), ("meta", .document [("n", .int32 1)]),
      ("tags", .array [.document [("label", .text "A")]])]
    let store : MemoryStore := .ofEntries [(⟨"Post"⟩, post)]
    let rules : List Rule :=
      [⟨.allow, .all, .tree [("tags", .nested [("label", .scalar (.text "A"))])]⟩,
        ⟨.deny, .all, .tree [("meta", .nested [("n", .scalar (.int32 2))])]⟩]
    let sel : Selector := ⟨[("$and", .array [
      .document [("tags", .document [("$elemMatch", .document [("label", .text "A")])])],
      .document [("$nor", .array [.document [("meta.n", .int32 2)]])]])]⟩
    (∀ rule ∈ rules, rule.OneReading schema store ⟨"Post"⟩ post) ∧
      (scope schema store ⟨"Post"⟩ rules).result = .ok sel ∧
      (permits schema store ⟨"Post"⟩ rules post).result = .ok true ∧
      (post ∈ [post] ↔ true = true) := by
  intro schema post store rules sel
  have hread : ∀ rule ∈ rules, rule.OneReading schema store ⟨"Post"⟩ post := by
    intro rule hr
    rcases List.mem_cons.mp hr with rfl | hr
    · have hresolve : (resolve schema store ⟨"Post"⟩
          [("tags", .nested [("label", .scalar (.text "A"))])]).result =
          .ok [.embedded "tags" ⟨"Tag"⟩ [.field "label" (.scalar (.text "A"))]] := by
        with_unfolding_all rfl
      exact Rule.OneReading.of_tree hresolve (by with_unfolding_all rfl) rfl rfl
    · rw [List.mem_singleton.mp hr]
      have hresolve : (resolve schema store ⟨"Post"⟩
          [("meta", .nested [("n", .scalar (.int32 2))])]).result =
          .ok [.path "meta" [.field "n" (.scalar (.int32 2))]] := by
        with_unfolding_all rfl
      exact Rule.OneReading.of_tree hresolve (by with_unfolding_all rfl) rfl rfl
  have hlone : ∀ subject s, Rule.applicable rules ⟨"Post"⟩ ≠ [⟨.deny, subject, .scope s⟩] := by
    intro subject s h
    cases h
  have hscope : (scope schema store ⟨"Post"⟩ rules).result = .ok sel := by
    with_unfolding_all rfl
  have hfound : store.select ⟨"Post"⟩ sel = .ok [post] := by
    with_unfolding_all rfl
  have hpermits : (permits schema store ⟨"Post"⟩ rules post).result = .ok true := by
    with_unfolding_all rfl
  exact ⟨hread, hscope, hpermits,
    mem_scope_iff_permits hlone hread List.mem_cons_self hscope hfound hpermits⟩

def Rule.allowing (tree : Tree) : Rule := ⟨.allow, .all, .tree tree⟩

section Allowing
variable {schema : Schema} {store : Store} {type : EntityType} {tree : Tree} {clauses : List Clause}

theorem scope_allowing (hne : tree.isEmpty = false)
    (h : (resolve schema store type tree).result = .ok clauses) :
    (scope schema store type [Rule.allowing tree]).result = .ok (Clause.selector clauses) := by
  have hsel : ((Rule.allowing tree).selector schema store type).result =
      .ok (Clause.selector clauses) := by
    change (resolve schema store type tree >>= fun found =>
      pure (Clause.selector found)).result = _
    rw [Run.result_bind, h]
    rfl
  have hallows : (Rule.allowing tree).allows = true := rfl
  have hall : Rule.anyUnconditional [Rule.allowing tree] = false := by
    simp [Rule.anyUnconditional, Rule.isUnconditional, Rule.allowing, hne]
  change (Contributions.ofRules schema store type (Rule.anyUnconditional [Rule.allowing tree])
    [Rule.allowing tree] >>= fun contributions =>
      pure (contributions.selector (Rule.anyUnconditional [Rule.allowing tree]))).result = _
  rw [hall, Run.result_bind, Contributions.ofRules, if_pos hallows, if_neg Bool.false_ne_true,
    Run.result_bind, hsel]
  rfl

theorem permits_allowing [Pattern.Engine]
    (h : (resolve schema store type tree).result = .ok clauses) (entity : Document) :
    (permits schema store type [Rule.allowing tree] entity).result =
      (satisfies schema clauses entity).mapError .filter := by
  have hholds : ((Rule.allowing tree).holds schema store type entity).result =
      (satisfies schema clauses entity).mapError .filter := by
    change (resolve schema store type tree >>= fun found =>
      Run.ofFilter (satisfies schema found entity)).result = _
    rw [Run.result_bind, h]
    rfl
  change ((Rule.allowing tree).holds schema store type entity >>= fun b => pure b).result = _
  rw [bind_pure, hholds]

end Allowing

/-- Keys that are read as operators set the two apart: a scope takes a foreign key for an operator
on elements, and a check takes a path segment for a combination of filters. -/
theorem scope_permits_differ :
    let schema : Schema := ⟨[("Post", ⟨[("tags", ⟨.embedded, some ⟨"Tag"⟩, none⟩)], []⟩),
      ("Tag", ⟨[("owner", ⟨.foreignKey, some ⟨"Owner"⟩, some "$ne"⟩)], []⟩)]⟩
    let post : Document := [("_id", .int32 1), ("m", .document [("a", .int32 1)]),
      ("tags", .array [.int32 5])]
    let store : MemoryStore := .ofEntries [(⟨"Post"⟩, post)]
    let type : EntityType := ⟨"Post"⟩
    let onOwner : Tree := [("tags", .nested [("owner", .nested [("name", .scalar (.text "X"))])])]
    let onPath : Tree := [("m.$or", .list [.document [("a", .int32 1)]])]
    (∃ clauses sel, (∀ entry ∈ onOwner, Operator.isToken entry.1 = false) ∧
      (resolve schema store type onOwner).result = .ok clauses ∧
      Clause.allUnambiguous clauses post = true ∧
      (scope schema store type [Rule.allowing onOwner]).result = .ok sel ∧
      store.select type sel = .ok [post] ∧
      (permits schema store type [Rule.allowing onOwner] post).result = .ok false) ∧
    ∃ clauses sel, (∀ entry ∈ onPath, Operator.isToken entry.1 = false) ∧
      (resolve schema store type onPath).result = .ok clauses ∧
      Clause.allUnambiguous clauses post = true ∧
      (scope schema store type [Rule.allowing onPath]).result = .ok sel ∧
      store.select type sel = .ok [] ∧
      (permits schema store type [Rule.allowing onPath] post).result = .ok true := by
  intro schema post store type onOwner onPath
  have howner : (resolve schema store type onOwner).result =
      .ok [.embedded "tags" ⟨"Tag"⟩ [.foreignKey "$ne" []]] := by
    with_unfolding_all rfl
  have hpath : (resolve schema store type onPath).result =
      .ok [.path "m" [.field "$or" (.list [.document [("a", .int32 1)]])]] := by
    have hkey : splitKey "m.$or" = some ("m", "$or") := by decide
    have hsplit : onPath.split =
        ⟨[("m", [("$or", .list [.document [("a", .int32 1)]])])], []⟩ := by
      rw [Tree.split, List.foldl_cons, List.foldl_nil]
      unfold Split.add
      rw [hkey]
      rfl
    rw [resolve, Tree.outline_eq, hsplit]
    with_unfolding_all rfl
  refine ⟨⟨_, _, by decide, howner, ?_, scope_allowing rfl howner, ?_, ?_⟩,
    _, _, by decide, hpath, ?_, scope_allowing rfl hpath, ?_, ?_⟩
  · rfl
  · with_unfolding_all rfl
  · rw [permits_allowing howner]
    rfl
  · rfl
  · with_unfolding_all rfl
  · rw [permits_allowing hpath]
    rfl

end AccessRules
