import AccessRules.Pattern.Syntax
import AccessRules.Proofs.Agreement

/-! The order of rules. Which rules are evaluated depends on their order, and so does whether one of
them fails; the verdict does not. It is that of all applicable rules together, and a further rule
moves it in one direction only. -/
namespace AccessRules

namespace Rule
variable {holds : Rule → Bool} {rule : Rule} {rules rules' : List Rule}

theorem permitted_perm (h : rules.Perm rules') :
    permitted holds rules = permitted holds rules' := by
  unfold permitted
  rw [h.any_eq, h.any_eq]

theorem permitted_of_deny (hdeny : rule.allows = false)
    (h : permitted holds (rule :: rules) = true) : permitted holds rules = true := by
  simp_all [permitted]

theorem permitted_allow (hallow : rule.allows = true) (h : permitted holds rules = true) :
    permitted holds (rule :: rules) = true := by
  simp_all [permitted]

variable (schema : Schema) (store : Store) (type : EntityType) (entity : Document)

variable [Pattern.Engine]

def applies (rule : Rule) : Bool :=
  match (rule.holds schema store type entity).result with
  | .ok b => b
  | .error _ => false

theorem decides_applies (rule : Rule) :
    Decides (rule.holds schema store type entity).result
      (rule.applies schema store type entity) := by
  intro b h
  simp [applies, h]

/-- The verdict of rules on an entity, in whatever order they stand. -/
def verdictOn (rules : List Rule) : Bool :=
  permitted (applies schema store type entity) (applicable rules type)

theorem decides_verdictOn (rules : List Rule) :
    Decides (permits schema store type rules entity).result
      (verdictOn schema store type entity rules) := by
  have hrules : ∀ rule ∈ applicable rules type,
      Decides (rule.holds schema store type entity).result
        (rule.applies schema store type entity) :=
    fun rule _ => decides_applies schema store type entity rule
  have h := decides_decideBy hrules false
  rwa [Bool.false_or] at h

section Verdict
variable {schema : Schema} {store : Store} {type : EntityType} {entity : Document}

theorem verdictOn_perm (h : rules.Perm rules') :
    verdictOn schema store type entity rules = verdictOn schema store type entity rules' :=
  permitted_perm (h.filter _)

theorem verdictOn_of_deny (hdeny : rule.allows = false)
    (h : verdictOn schema store type entity (rule :: rules) = true) :
    verdictOn schema store type entity rules = true := by
  unfold verdictOn applicable at *
  rw [List.filter_cons] at h
  split at h
  · exact permitted_of_deny hdeny h
  · exact h

theorem verdictOn_allow (hallow : rule.allows = true)
    (h : verdictOn schema store type entity rules = true) :
    verdictOn schema store type entity (rule :: rules) = true := by
  unfold verdictOn applicable at *
  rw [List.filter_cons]
  split
  · exact permitted_allow hallow h
  · exact h

end Verdict
end Rule

section Order
variable (schema : Schema) (store : Store) (type : EntityType) (entity : Document)

/-- Rules in another order permit the same or fail. A further rule that denies permits nothing, and
one that allows forbids nothing, wherever it is put. -/
theorem permits_reordered [Pattern.Engine] :
    (∀ rules rules' permitted, rules.Perm rules' →
      (permits schema store type rules entity).result = .ok permitted →
      (permits schema store type rules' entity).result = .ok permitted ∨
        ∃ e, (permits schema store type rules' entity).result = .error e) ∧
    (∀ before after rule, Rule.allows rule = false →
      (permits schema store type (before ++ after) entity).result = .ok false →
      (permits schema store type (before ++ rule :: after) entity).result ≠ .ok true) ∧
    ∀ before after rule, Rule.allows rule = true →
      (permits schema store type (before ++ after) entity).result = .ok true →
      (permits schema store type (before ++ rule :: after) entity).result ≠ .ok false := by
  have hdecides := Rule.decides_verdictOn schema store type entity
  refine ⟨fun rules rules' permitted hperm h => ?_, fun before after rule hdeny h htrue => ?_,
    fun before after rule hallow h hfalse => ?_⟩
  · cases hresult : (permits schema store type rules' entity).result with
    | error e => exact .inr ⟨e, rfl⟩
    | ok answer =>
      left
      rw [hdecides rules' answer hresult, hdecides rules permitted h, Rule.verdictOn_perm hperm]
  · have hrest := hdecides _ _ h
    have hall := hdecides _ _ htrue
    rw [Rule.verdictOn_perm List.perm_middle] at hall
    rw [Rule.verdictOn_of_deny hdeny hall.symm] at hrest
    cases hrest
  · have hrest := hdecides _ _ h
    have hall := hdecides _ _ hfalse
    rw [Rule.verdictOn_perm List.perm_middle, Rule.verdictOn_allow hallow hrest.symm] at hall
    cases hall

/-- A rule on an owner without a type fails where it is evaluated, which depends on whether the rule
that allows everything stands before it. -/
theorem permits_reordered_project :
    let schema : Schema := ⟨[("Project", ⟨[("owner", ⟨.foreignKey, none, none⟩)], []⟩)]⟩
    let store : MemoryStore := .ofEntries []
    let answer := fun rules =>
      (permits schema store ⟨"Project"⟩ rules [("a", .int32 1)]).result
    let everything : Rule := .allowing []
    let owned : Rule := .allowing [("owner", .nested [])]
    let denied : Rule := ⟨.deny, .all, .tree [("a", .scalar (.int32 1))]⟩
    let spared : Rule := ⟨.deny, .all, .tree [("a", .scalar (.int32 2))]⟩
    ([everything, owned].Perm [owned, everything] ∧ answer [everything, owned] = .ok true ∧
      answer [owned, everything] = .error (.missingTarget ⟨"Project"⟩ "owner") ∧
      (answer [owned, everything] = .ok true ∨ ∃ e, answer [owned, everything] = .error e)) ∧
    (spared.allows = false ∧ answer [everything, denied] = .ok false ∧
      answer [everything, spared, denied] ≠ .ok true) ∧
    owned.allows = true ∧ answer [everything] = .ok true ∧
      answer [owned, everything] ≠ .ok false := by
  intro schema store answer everything owned denied spared
  obtain ⟨hperm, hdeny, hallow⟩ :=
    permits_reordered schema store ⟨"Project"⟩ [("a", .int32 1)]
  have hswap : [everything, owned].Perm [owned, everything] := .swap _ _ _
  have hfirst : answer [everything, owned] = .ok true := by with_unfolding_all rfl
  have hdenied : answer [everything, denied] = .ok false := by with_unfolding_all rfl
  have hall : answer [everything] = .ok true := by with_unfolding_all rfl
  refine ⟨⟨hswap, hfirst, ?_, hperm _ _ true hswap hfirst⟩, ⟨rfl, hdenied, ?_⟩, rfl, hall, ?_⟩
  · with_unfolding_all rfl
  · exact hdeny [everything] [denied] spared rfl hdenied
  · exact hallow [] [everything] owned rfl hall

end Order

end AccessRules
