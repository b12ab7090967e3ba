import AccessRules.Pattern.Syntax
import AccessRules.Proofs.CompiledScope

/-! What a scope asks the store. The questions are those of the conditions that are resolved for it,
rule by rule; rules that allow are asked about only where none of them allows everything, and
nothing is asked after a rule that denies everything or a resolution that fails. -/
namespace AccessRules

namespace Run
variable {α β : Type}

def fails (run : Run α) : Bool :=
  match run.result with
  | .ok _ => false
  | .error _ => true

/-- The run does not fail because of a rule without a form as a selector. -/
def Compiles (run : Run α) : Prop := ∀ subject, run.result ≠ .error (.uncompilable subject)

theorem compiles_pure (a : α) : (pure a : Run α).Compiles := fun _ => nofun

theorem Compiles.bind {run : Run α} {next : α → Run β} (h : run.Compiles)
    (hnext : ∀ a, (next a).Compiles) : (run >>= next).Compiles := by
  intro subject hresult
  cases hr : run.result with
  | error e =>
    rw [bind_error hr] at hresult
    cases hresult
    exact h subject hr
  | ok a =>
    rw [bind_ok hr] at hresult
    exact hnext a subject hresult

theorem compiles_identifiers (store : Store) (type : EntityType) (selector : Selector) :
    (identifiers store type selector).Compiles := by
  intro subject h
  unfold identifiers at h
  cases hr : store.identifiers type selector with
  | error e | ok ids =>
    rw [hr] at h
    cases h

theorem queries_bind (run : Run α) {next : α → Run β} {more : List Query}
    (h : ∀ a, run.result = .ok a → (next a).queries = more) :
    (run >>= next).queries = run.queries ++ if run.fails then [] else more := by
  unfold fails
  cases hr : run.result with
  | error e =>
    rw [bind_error hr]
    exact (List.append_nil _).symm
  | ok a =>
    rw [bind_ok hr, h a hr]
    rfl

theorem queries_map (run : Run α) (f : α → β) :
    (run >>= fun a => pure (f a)).queries = run.queries := by
  rw [queries_bind run fun _ _ => queries_pure _, ite_self, List.append_nil]

theorem fails_map (run : Run α) (f : α → β) :
    (run >>= fun a => pure (f a)).fails = run.fails := by
  unfold fails
  rw [result_bind]
  cases run.result <;> rfl

end Run

section Resolution
variable (schema : Schema) (store : Store)

theorem compiles_headClause (owner : Option EntityType) (field : String) (nothingBelow : Bool)
    {below : Option EntityType → Run (List Clause)} (h : ∀ type, (below type).Compiles) :
    (headClause schema store owner field nothingBelow below).Compiles := by
  unfold headClause
  split
  · split
    · exact Run.compiles_pure _
    · exact (h none).bind fun _ => Run.compiles_pure _
  · intro subject hresult
    cases hresult
  · next relation target _ =>
    refine (h (some target)).bind fun inside => ?_
    split
    · exact Run.compiles_pure _
    · exact (Run.compiles_identifiers store target _).bind fun _ => Run.compiles_pure _

mutual

theorem Outline.compiles_resolve (owner : Option EntityType) (o : Outline) :
    (o.resolve schema store owner).Compiles := by
  match o with
  | .mk direct heads =>
    rw [resolve]
    exact (compiles_resolveHeads owner heads).bind fun _ => Run.compiles_pure _

theorem Outline.compiles_resolveHeads (owner : Option EntityType)
    (heads : List (String × Outline)) : (resolveHeads schema store owner heads).Compiles := by
  match heads with
  | [] => exact Run.compiles_pure _
  | (field, inside) :: rest =>
    rw [resolveHeads]
    have hhead := compiles_headClause schema store owner field inside.isEmpty fun type =>
      compiles_resolve type inside
    exact hhead.bind fun _ => (compiles_resolveHeads owner rest).bind fun _ => Run.compiles_pure _

end

end Resolution

namespace Rule

def tree? (rule : Rule) : Option Tree :=
  match rule.conditions with
  | .tree conditions => some conditions
  | _ => none

/-- The rule allows what satisfies a tree that is not empty, or a scope. -/
def allowsConditionally (rule : Rule) : Bool :=
  rule.allows && !rule.isUnconditional && !rule.isBlock

/-- The conditions that are resolved for a scope, in order: those of the rules before the first that
denies everything, without those that allow if everything is allowed to begin with. -/
def treesAsked (allowed : Bool) (rules : List Rule) : List Tree :=
  ((rules.takeWhile fun rule => rule.allows || !rule.isUnconditional).filter fun rule =>
    !(rule.allows && allowed)).filterMap tree?

section Trees
variable {allowed : Bool} {rule : Rule} {rest : List Rule}

theorem treesAsked_skip (h : rule.allows = true) :
    treesAsked true (rule :: rest) = treesAsked true rest := by
  simp [treesAsked, h]

theorem treesAsked_cut (h : rule.allows = false) (hu : rule.isUnconditional = true) :
    treesAsked allowed (rule :: rest) = [] := by
  simp [treesAsked, h, hu]

theorem treesAsked_cons (h : rule.Matters allowed)
    (hu : rule.allows = false → rule.isUnconditional = false) :
    treesAsked allowed (rule :: rest) = rule.tree?.toList ++ treesAsked allowed rest := by
  have hkept : (rule.allows || !rule.isUnconditional) = true := by
    cases ha : rule.allows with
    | true => rfl
    | false => rw [hu ha]; rfl
  have hasked : (!(rule.allows && allowed)) = true := by
    cases ha : rule.allows with
    | true => rw [h ha]; rfl
    | false => rfl
  rw [treesAsked, List.takeWhile_cons, if_pos hkept, List.filter_cons, if_pos hasked,
    List.filterMap_cons]
  cases rule.tree? <;> rfl

end Trees

section Lists
variable {list : List Rule}

theorem loneScope?_eq_some_iff {s : Selector} :
    loneScope? list = some s ↔ ∃ behavior subject, list = [⟨behavior, subject, .scope s⟩] := by
  unfold loneScope?
  split
  · next behavior subject selector => simp
  · next hnot => exact ⟨nofun, fun ⟨behavior, subject, heq⟩ => (hnot behavior subject s heq).elim⟩

theorem loneScope?_eq_none (h : anyUnconditional list = true) : loneScope? list = none := by
  unfold loneScope?
  split
  · simp [anyUnconditional, isUnconditional] at h
  · rfl

theorem noBlock_of_find? (h : list.find? isBlock = none) :
    ∀ rule ∈ list, rule.isBlock = false :=
  fun rule hr => Bool.not_eq_true _ ▸ List.find?_eq_none.mp h rule hr

theorem find?_isBlock_filter (list : List Rule) :
    (list.filter (!·.allowsConditionally)).find? isBlock = list.find? isBlock := by
  rw [List.find?_filter]
  refine congrArg (fun p => list.find? p) (funext fun rule => ?_)
  unfold allowsConditionally
  cases rule.isBlock <;> simp

@[simp] theorem anyUnconditional_filter (list : List Rule) :
    anyUnconditional (list.filter (!·.allowsConditionally)) = anyUnconditional list := by
  unfold anyUnconditional
  rw [List.any_filter]
  refine congrArg (fun p => list.any p) (funext fun rule => ?_)
  unfold allowsConditionally
  cases rule.allows <;> cases rule.isUnconditional <;> simp

@[simp] theorem applicable_filter (keep : Rule → Bool) (rules : List Rule) (type : EntityType) :
    applicable (rules.filter keep) type = (applicable rules type).filter keep := by
  unfold applicable
  rw [List.filter_filter, List.filter_filter]
  exact List.filter_congr fun rule _ => Bool.and_comm _ _

end Lists
end Rule

section Questions
variable (schema : Schema) (store : Store) (type : EntityType)

def questions (trees : List Tree) : List Query :=
  (trees.take (trees.findIdx (fun tree => (resolve schema store type tree).fails) + 1)).flatMap
    fun tree => (resolve schema store type tree).queries

variable {schema store type}

theorem questions_cons (tree : Tree) (trees : List Tree) :
    questions schema store type (tree :: trees) = (resolve schema store type tree).queries ++
      if (resolve schema store type tree).fails then [] else questions schema store type trees := by
  unfold questions
  rw [List.findIdx_cons, List.take_succ_cons, List.flatMap_cons]
  cases (resolve schema store type tree).fails <;> rfl

theorem Rule.compiles_selector {rule : Rule} (h : rule.isBlock = false) :
    (rule.selector schema store type).Compiles := by
  unfold isBlock at h
  unfold selector
  split
  · exact (Outline.compiles_resolve schema store _ _).bind fun _ => Run.compiles_pure _
  · exact Run.compiles_pure _
  · next hc => simp [hc] at h

theorem Rule.queries_selector_bind {α : Type} {rule : Rule} (h : rule.isBlock = false)
    {next : Selector → Run α} {trees : List Tree}
    (hnext : ∀ s, (next s).queries = questions schema store type trees) :
    (rule.selector schema store type >>= next).queries =
      questions schema store type (rule.tree?.toList ++ trees) := by
  rw [Run.queries_bind _ fun s _ => hnext s]
  unfold isBlock at h
  unfold selector tree?
  cases hc : rule.conditions with
  | tree conditions =>
    dsimp only
    rw [Run.fails_map, Option.toList_some, List.singleton_append, questions_cons,
      Run.queries_map]
  | scope s => rfl
  | block test => simp [hc] at h

namespace Contributions
variable {allowed : Bool} {rules : List Rule}

theorem compiles_ofRules (h : ∀ rule ∈ rules, rule.isBlock = false) :
    (ofRules schema store type allowed rules).Compiles := by
  induction rules with
  | nil => exact Run.compiles_pure _
  | cons rule rest ih =>
    obtain ⟨hrule, hrest⟩ := List.forall_mem_cons.mp h
    have hselector : (rule.selector schema store type).Compiles := Rule.compiles_selector hrule
    rw [ofRules]
    split
    · split
      · exact ih hrest
      · exact hselector.bind fun _ => (ih hrest).bind fun _ => Run.compiles_pure _
    · split
      · exact Run.compiles_pure _
      · exact hselector.bind fun _ => (ih hrest).bind fun _ => Run.compiles_pure _

theorem queries_ofRules (h : ∀ rule ∈ rules, rule.isBlock = false) :
    (ofRules schema store type allowed rules).queries =
      questions schema store type (Rule.treesAsked allowed rules) := by
  induction rules with
  | nil => rfl
  | cons rule rest ih =>
    obtain ⟨hrule, hrest⟩ := List.forall_mem_cons.mp h
    have hothers : ∀ f : Contributions → Contributions,
        (ofRules schema store type allowed rest >>= fun others => pure (f others)).queries =
          questions schema store type (Rule.treesAsked allowed rest) := by
      intro f
      rw [Run.queries_map, ih hrest]
    rw [ofRules]
    by_cases ha : rule.allows = true
    · rw [if_pos ha]
      by_cases hall : allowed = true
      · subst hall
        rw [if_pos rfl, Rule.treesAsked_skip ha]
        exact ih hrest
      · rw [Bool.not_eq_true] at hall
        subst hall
        have hfirst : Rule.treesAsked false (rule :: rest) =
            rule.tree?.toList ++ Rule.treesAsked false rest :=
          Rule.treesAsked_cons (fun _ => rfl) fun hd => absurd ha (by simp [hd])
        rw [if_neg Bool.false_ne_true, hfirst]
        exact Rule.queries_selector_bind hrule fun s => hothers _
    · have hd := Bool.not_eq_true _ ▸ ha
      rw [if_neg ha]
      by_cases hu : rule.isUnconditional = true
      · rw [if_pos hu, Rule.treesAsked_cut hd hu]
        rfl
      · rw [if_neg hu, Rule.treesAsked_cons (fun h => absurd h ha)
          fun _ => Bool.not_eq_true _ ▸ hu]
        exact Rule.queries_selector_bind hrule fun s => hothers _

theorem ofRules_filter {keep : Rule → Bool}
    (h : ∀ rule ∈ rules, keep rule = false → rule.allows = true) :
    ofRules schema store type true (rules.filter keep) = ofRules schema store type true rules := by
  induction rules with
  | nil => rfl
  | cons rule rest ih =>
    obtain ⟨hrule, hrest⟩ := List.forall_mem_cons.mp h
    cases hkeep : keep rule with
    | true =>
      rw [List.filter_cons_of_pos hkeep, ofRules, ofRules, ih hrest]
    | false =>
      rw [List.filter_cons_of_neg (by simp [hkeep]), ofRules, if_pos (hrule hkeep), if_pos rfl]
      exact ih hrest

end Contributions

variable {rules : List Rule}

theorem scope_eq_lone {s : Selector}
    (hs : Rule.loneScope? (Rule.applicable rules type) = some s) :
    scope schema store type rules = pure s := by
  obtain ⟨behavior, subject, happ⟩ := Rule.loneScope?_eq_some_iff.mp hs
  unfold scope
  rw [happ]

theorem scope_eq_contributions (hs : Rule.loneScope? (Rule.applicable rules type) = none) :
    scope schema store type rules =
      match (Rule.applicable rules type).find? Rule.isBlock with
      | some rule => Run.fail (.uncompilable rule.subject)
      | none =>
        Contributions.ofRules schema store type
            (Rule.anyUnconditional (Rule.applicable rules type)) (Rule.applicable rules type) >>=
          fun found =>
            pure (found.selector (Rule.anyUnconditional (Rule.applicable rules type))) := by
  unfold scope
  split
  · next happ =>
    rw [happ]
    rfl
  · next happ =>
    rw [happ] at hs
    cases hs
  · rfl

/-- If a rule allows everything, the rules that allow under a condition can be left out. -/
theorem scope_without (h : Rule.anyUnconditional (Rule.applicable rules type) = true) :
    scope schema store type (rules.filter (!·.allowsConditionally)) =
      scope schema store type rules := by
  have hkept := Rule.applicable_filter (!·.allowsConditionally) rules type
  have hany : Rule.anyUnconditional
      (Rule.applicable (rules.filter (!·.allowsConditionally)) type) = true := by
    rw [hkept, Rule.anyUnconditional_filter, h]
  have hallows : ∀ rule ∈ Rule.applicable rules type,
      (!rule.allowsConditionally) = false → rule.allows = true := by
    intro rule _ hnot
    simp only [Rule.allowsConditionally, Bool.not_eq_false', Bool.and_eq_true] at hnot
    exact hnot.1.1
  rw [scope_eq_contributions (Rule.loneScope?_eq_none h),
    scope_eq_contributions (Rule.loneScope?_eq_none hany), h, hany, hkept,
    Rule.find?_isBlock_filter, Contributions.ofRules_filter hallows]

theorem queries_scope :
    (scope schema store type rules).queries =
      if (Rule.applicable rules type).any Rule.isBlock then []
      else questions schema store type (Rule.treesAsked
        (Rule.anyUnconditional (Rule.applicable rules type)) (Rule.applicable rules type)) := by
  cases hs : Rule.loneScope? (Rule.applicable rules type) with
  | some s =>
    obtain ⟨behavior, subject, happ⟩ := Rule.loneScope?_eq_some_iff.mp hs
    rw [scope_eq_lone hs, happ]
    cases behavior <;> rfl
  | none =>
    rw [scope_eq_contributions hs]
    cases hb : (Rule.applicable rules type).find? Rule.isBlock with
    | some rule =>
      rw [if_pos (List.any_eq_true.mpr ⟨rule, List.mem_of_find?_eq_some hb, List.find?_some hb⟩)]
      rfl
    | none =>
      have hnone := Rule.noBlock_of_find? hb
      rw [if_neg (by simpa using hnone), Run.queries_map, Contributions.queries_ofRules hnone]

theorem scope_uncompilable_iff (subject : Subject) :
    (scope schema store type rules).result = .error (.uncompilable subject) ↔
      ∃ rule, (Rule.applicable rules type).find? Rule.isBlock = some rule ∧
        rule.subject = subject := by
  cases hs : Rule.loneScope? (Rule.applicable rules type) with
  | some s =>
    obtain ⟨behavior, other, happ⟩ := Rule.loneScope?_eq_some_iff.mp hs
    rw [scope_eq_lone hs, happ]
    exact ⟨nofun, fun ⟨rule, hrule, _⟩ => nomatch hrule⟩
  | none =>
    rw [scope_eq_contributions hs]
    cases hb : (Rule.applicable rules type).find? Rule.isBlock with
    | some rule => simp [Run.fail]
    | none =>
      have hrules : (Contributions.ofRules schema store type
          (Rule.anyUnconditional (Rule.applicable rules type))
          (Rule.applicable rules type)).Compiles :=
        Contributions.compiles_ofRules (Rule.noBlock_of_find? hb)
      refine ⟨fun h => absurd h ?_, fun ⟨rule, hrule, _⟩ => nomatch hrule⟩
      exact hrules.bind (fun found => Run.compiles_pure _) subject

end Questions

/-- A scope asks the store what is asked to resolve the conditions of the applicable rules in their
order, up to the first that denies everything or cannot be resolved; where a rule allows everything,
nothing is asked for those that allow. A block among the rules is reported, the first if there are
several, before anything is asked. So beside a rule that allows everything, those that allow under a
condition have no part in the selector, the error or the questions. -/
theorem scope_asks (schema : Schema) (store : Store) (type : EntityType) (rules : List Rule) :
    let applicable := Rule.applicable rules type
    (scope schema store type rules).queries =
        (if applicable.any Rule.isBlock then []
        else questions schema store type
          (Rule.treesAsked (Rule.anyUnconditional applicable) applicable)) ∧
      (applicable = [] ∨ (Rule.loneScope? applicable).isSome = true →
        (scope schema store type rules).queries = []) ∧
      (∀ subject, (scope schema store type rules).result = .error (.uncompilable subject) ↔
        ∃ rule, applicable.find? Rule.isBlock = some rule ∧ rule.subject = subject) ∧
      (Rule.anyUnconditional applicable = true →
        scope schema store type (rules.filter (!·.allowsConditionally)) =
          scope schema store type rules) := by
  refine ⟨queries_scope, fun h => ?_, scope_uncompilable_iff, scope_without⟩
  rcases h with hnil | hlone
  · rw [queries_scope, hnil]
    rfl
  · obtain ⟨s, hs⟩ := Option.isSome_iff_exists.mp hlone
    rw [scope_eq_lone hs]
    rfl

theorem scope_asks_project :
    let schema : Schema :=
      ⟨[("Project", ⟨[("category", ⟨.foreignKey, some ⟨"Category"⟩, none⟩)], []⟩)]⟩
    let store : MemoryStore := .ofEntries [
      (⟨"Category"⟩, [("_id", .int32 1), ("visible", .bool true)])]
    let visible (b : Bool) : Criterion :=
      .tree [("category", .nested [("visible", .scalar (.bool b))])]
    let denied : Rule := ⟨.deny, .all, visible false⟩
    let all : Rule := ⟨.allow, .all, .tree []⟩
    let rules : List Rule := [⟨.allow, .all, visible true⟩, denied, all]
    let prebuilt : List Rule := [⟨.deny, .all, .scope ⟨[("bar", .int32 1)]⟩⟩]
    Rule.anyUnconditional (Rule.applicable rules ⟨"Project"⟩) = true ∧
      (scope schema store ⟨"Project"⟩ rules).queries =
        [⟨.identifiers, ⟨"Category"⟩, ⟨[("visible", .bool false)]⟩⟩] ∧
      scope schema store ⟨"Project"⟩ [denied, all] = scope schema store ⟨"Project"⟩ rules ∧
      (Rule.loneScope? (Rule.applicable prebuilt ⟨"Project"⟩)).isSome = true ∧
      (scope schema store ⟨"Project"⟩ prebuilt).queries = [] := by
  intro schema store visible denied all rules prebuilt
  obtain ⟨hqueries, -, -, hwithout⟩ := scope_asks schema store ⟨"Project"⟩ rules
  refine ⟨rfl, hqueries.trans ?_, hwithout rfl, rfl, ?_⟩
  · with_unfolding_all rfl
  · exact (scope_asks schema store ⟨"Project"⟩ prebuilt).2.1 (.inr rfl)

end AccessRules
