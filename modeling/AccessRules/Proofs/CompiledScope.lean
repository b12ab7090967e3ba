import AccessRules.Pattern.Syntax
import AccessRules.Proofs.Derivation
import AccessRules.Proofs.Evaluation
import AccessRules.Proofs.Path
import AccessRules.Scope

/-! What compiled scopes mean. The filter of a scope is evaluated to the end exactly as far as the
rules' own selectors are: one of those that allow has to hold, and then none of those that deny. -/
namespace AccessRules

namespace Selector

variable [Pattern.Engine]

@[simp] theorem holds_nothing (entity : Document) :
    Filter.holds nothing.document entity = .ok false := by
  have hdot : '.' ∉ identifierField.toList := by decide
  have hkey : Operator.ofKey? identifierField = none := rfl
  rw [nothing, Filter.holds_singleton, Filter.fieldHolds_path hkey, Path.leaves_field hdot]
  -- an identifier that is missing has no type, and one that is there exists
  cases entity.lookup identifierField with
  | none => rfl
  | some id => rfl

theorem holds_conjunction (selectors : List Selector) (entity : Document) :
    Filter.holds (conjunction selectors).document entity =
      selectors.allM fun s => Filter.holds s.document entity := by
  match selectors with
  | [] => rfl
  | [only] =>
    rw [List.allM_cons, List.allM_nil, confirm_eq]
    rfl
  | first :: second :: rest =>
    have hne : (first :: second :: rest).map (·.document) ≠ [] := by simp
    have hdoc : (conjunction (first :: second :: rest)).document =
        [(Operator.and.token,
          .array (((first :: second :: rest).map (·.document)).map .document))] := by
      rw [List.map_map]
      rfl
    rw [hdoc, Filter.holds_and hne, allM_map]

theorem holds_disjunction {selectors : List Selector} (h : selectors ≠ []) (entity : Document) :
    Filter.holds (disjunction selectors).document entity =
      selectors.anyM fun s => Filter.holds s.document entity := by
  match selectors with
  | [] => exact absurd rfl h
  | [only] =>
    rw [List.anyM_cons, List.anyM_nil]
    exact (confirm_eq _).symm
  | first :: second :: rest =>
    have hne : (first :: second :: rest).map (·.document) ≠ [] := by simp
    have hdoc : (disjunction (first :: second :: rest)).document =
        [(Operator.or.token,
          .array (((first :: second :: rest).map (·.document)).map .document))] := by
      rw [List.map_map]
      rfl
    rw [hdoc, Filter.holds_or hne, anyM_map]

@[simp] theorem holds_negation (s : Selector) (entity : Document) :
    Filter.holds s.negation.document entity =
      (do pure (!(← Filter.holds s.document entity))) :=
  Filter.holds_nor _ _

end Selector

namespace Rule

/-- The verdict of rules that are taken one by one: some rule that allows has to hold, and none that
denies. -/
def permitted (holds : Rule → Bool) (rules : List Rule) : Bool :=
  rules.any (fun rule => rule.allows && holds rule) &&
    !rules.any fun rule => !rule.allows && holds rule

/-- The same verdict from evaluations that may fail. Rules that allow are left out where everything
is allowed to begin with. -/
def verdict {ε : Type} (allowed : Bool) (own : Rule → Except ε Bool) (rules : List Rule) :
    Except ε Bool := do
  if ← (if allowed then pure true else (rules.filter (·.allows)).anyM own) then
    (rules.filter (!·.allows)).allM fun rule => do pure (!(← own rule))
  else pure false

def Matters (allowed : Bool) (rule : Rule) : Prop := rule.allows = true → allowed = false

section Verdict
variable {ε : Type} {allowed : Bool} {own : Rule → Except ε Bool} {holds : Rule → Bool}
  {rules : List Rule}

theorem permitted_eq (h : allowed = true → ∃ rule ∈ rules, rule.allows = true ∧ holds rule = true) :
    permitted holds rules =
      ((if allowed then true else (rules.filter (·.allows)).any holds) &&
        (rules.filter (!·.allows)).all fun rule => !holds rule) := by
  have hdeny : (!rules.any fun rule => !rule.allows && holds rule) =
      (rules.filter (!·.allows)).all fun rule => !holds rule := by
    simp [List.all_filter, List.not_any_eq_all_not, Bool.not_and, Bool.or_comm]
  rw [permitted, hdeny]
  cases allowed with
  | false => simp [List.any_filter]
  | true =>
    have hany : (rules.any fun rule => rule.allows && holds rule) = true := by
      simpa using h rfl
    rw [hany]
    rfl

theorem decides_verdict
    (h : allowed = true → ∃ rule ∈ rules, rule.allows = true ∧ holds rule = true)
    (hown : ∀ rule ∈ rules, rule.Matters allowed → Decides (own rule) (holds rule)) :
    Decides (verdict allowed own rules) (permitted holds rules) := by
  rw [permitted_eq h]
  refine Decides.andThen ?_ fun _ => Decides.allM fun rule hr => ?_
  · cases allowed with
    | true => exact Decides.pure_iff.mpr rfl
    | false =>
      exact Decides.anyM fun rule hr => hown rule (List.mem_filter.mp hr).1 fun _ => rfl
  · have hdeny := List.mem_filter.mp hr
    exact (hown rule hdeny.1 fun ha => by simp [ha] at hdeny).not

theorem verdict_no_allow (h : ∀ rule ∈ rules, rule.allows = false) :
    verdict false own rules = .ok false := by
  have hnil : rules.filter (·.allows) = [] := by
    rw [List.filter_eq_nil_iff]
    intro rule hr
    simp [h rule hr]
  rw [verdict, hnil]
  rfl

theorem verdict_eq_ok
    (h : allowed = true → ∃ rule ∈ rules, rule.allows = true ∧ holds rule = true)
    (hown : ∀ rule ∈ rules, rule.Matters allowed → own rule = .ok (holds rule)) :
    verdict allowed own rules = .ok (permitted holds rules) := by
  have hallow : (if allowed then pure true else (rules.filter (·.allows)).anyM own) =
      .ok (if allowed then true else (rules.filter (·.allows)).any holds) := by
    cases allowed with
    | true => rfl
    | false =>
      exact anyM_eq_ok fun rule hr => hown rule (List.mem_filter.mp hr).1 fun _ => rfl
  have hdeny : (rules.filter (!·.allows)).allM (fun rule => do pure (!(← own rule))) =
      .ok ((rules.filter (!·.allows)).all fun rule => !holds rule) := by
    refine allM_eq_ok fun rule hr => ?_
    have hr := List.mem_filter.mp hr
    rw [hown rule hr.1 fun ha => by simp [ha] at hr]
    rfl
  rw [permitted_eq h, verdict, hallow, hdeny]
  cases (if allowed then true else (rules.filter (·.allows)).any holds) <;> rfl

end Verdict

variable (schema : Schema) (store : Store) (type : EntityType)

def ownSelector (rule : Rule) : Selector :=
  match (rule.selector schema store type).result with
  | .ok s => s
  | .error _ => Selector.nothing

variable {schema store type}

/-- Whether a rule's own selector can be resolved and evaluated on an entity. -/
def Evaluates [Pattern.Engine] (schema : Schema) (store : Store) (type : EntityType) (rule : Rule)
    (entity : Document) : Prop :=
  ∃ s b, (rule.selector schema store type).result = .ok s ∧
    Filter.holds s.document entity = .ok b

/-- Whether a rule's own selector accepts an entity. -/
def selects [Pattern.Engine] (schema : Schema) (store : Store) (type : EntityType)
    (entity : Document) (rule : Rule) : Bool :=
  Filter.accepts (rule.ownSelector schema store type).document entity

theorem ownSelector_eq {rule : Rule} {s : Selector}
    (h : (rule.selector schema store type).result = .ok s) :
    rule.ownSelector schema store type = s := by
  rw [ownSelector, h]

theorem holds_ownSelector [Pattern.Engine] {rule : Rule} {entity : Document}
    (h : rule.Evaluates schema store type entity) :
    Filter.holds (rule.ownSelector schema store type).document entity =
      .ok (rule.selects schema store type entity) := by
  obtain ⟨s, b, hs, hb⟩ := h
  rw [selects, Filter.accepts, ownSelector_eq hs, hb]

@[simp] theorem resolve_empty : (resolve schema store type []).result = .ok [] := by
  rw [resolve, Tree.outline_eq]
  rfl

theorem selector_of_isUnconditional {rule : Rule} (h : rule.isUnconditional = true) :
    (rule.selector schema store type).result = .ok Selector.everything := by
  unfold isUnconditional at h
  split at h
  · next conditions hc =>
    rw [selector, hc, List.isEmpty_iff.mp h]
    change ((resolve schema store type []) >>= fun clauses =>
      pure (Clause.selector clauses)).result = _
    rw [Run.result_bind, resolve_empty]
    rfl
  · cases h

theorem selects_of_isUnconditional [Pattern.Engine] {rule : Rule} (h : rule.isUnconditional = true)
    (entity : Document) : rule.selects schema store type entity = true := by
  rw [selects, ownSelector_eq (selector_of_isUnconditional h)]
  rfl

end Rule

namespace Contributions
variable {schema : Schema} {store : Store} {type : EntityType} {allowed : Bool}

inductive Contribute (schema : Schema) (store : Store) (type : EntityType) (allowed : Bool) :
    List Rule → Contributions → Prop where
  | nil : Contribute schema store type allowed [] (.parts [] [])
  | skip {rule rest contributions} :
    rule.allows = true → allowed = true →
    Contribute schema store type allowed rest contributions →
    Contribute schema store type allowed (rule :: rest) contributions
  | allow {rule rest others s} :
    rule.allows = true → allowed = false → (rule.selector schema store type).result = .ok s →
    Contribute schema store type allowed rest others →
    Contribute schema store type allowed (rule :: rest) (others.alternative s)
  | cut {rule rest} :
    rule.allows = false → rule.isUnconditional = true →
    Contribute schema store type allowed (rule :: rest) .denied
  | deny {rule rest others s} :
    rule.allows = false → rule.isUnconditional = false →
    (rule.selector schema store type).result = .ok s →
    Contribute schema store type allowed rest others →
    Contribute schema store type allowed (rule :: rest) (others.exclusion s)

theorem contribute_of_ok {rules : List Rule} {contributions : Contributions}
    (h : (ofRules schema store type allowed rules).result = .ok contributions) :
    Contribute schema store type allowed rules contributions := by
  induction rules generalizing contributions with
  | nil =>
    cases h
    exact .nil
  | cons rule rest ih =>
    rw [ofRules] at h
    by_cases ha : rule.allows = true
    · rw [if_pos ha] at h
      by_cases hall : allowed = true
      · rw [if_pos hall] at h
        exact .skip ha hall (ih h)
      · rw [if_neg hall] at h
        obtain ⟨s, hs, h⟩ := Run.result_bind_ok h
        obtain ⟨others, hothers, h⟩ := Run.result_bind_ok h
        cases h
        exact .allow ha (by simpa using hall) hs (ih hothers)
    · rw [if_neg ha] at h
      rw [Bool.not_eq_true] at ha
      by_cases hu : rule.isUnconditional = true
      · rw [if_pos hu] at h
        cases h
        exact .cut ha hu
      · rw [if_neg hu] at h
        obtain ⟨s, hs, h⟩ := Run.result_bind_ok h
        obtain ⟨others, hothers, h⟩ := Run.result_bind_ok h
        cases h
        exact .deny ha (by simpa using hu) hs (ih hothers)

theorem Contribute.parts_eq {rules : List Rule} {alternatives exclusions : List Selector}
    (h : Contribute schema store type allowed rules (parts alternatives exclusions)) :
    (alternatives = if allowed then [] else
        (rules.filter (·.allows)).map (·.ownSelector schema store type)) ∧
      (exclusions = (rules.filter (!·.allows)).map fun rule =>
        (rule.ownSelector schema store type).negation) ∧
      ∀ rule ∈ rules, rule.Matters allowed →
        (rule.selector schema store type).result = .ok (rule.ownSelector schema store type) ∧
          (rule.allows || !rule.isUnconditional) = true := by
  generalize hc : parts alternatives exclusions = contributions at h
  induction h generalizing alternatives exclusions with
  | nil =>
    cases hc
    simp
  | skip ha hall _ ih =>
    obtain ⟨halt, hexc, hrest⟩ := ih hc
    refine ⟨by simpa [hall] using halt, by simpa [ha] using hexc, fun r hr hm => ?_⟩
    rcases List.mem_cons.mp hr with rfl | hr
    · exact absurd (hm ha) (by simp [hall])
    · exact hrest r hr hm
  | @allow rule rest others s ha hall hs _ ih =>
    have hown := Rule.ownSelector_eq hs
    cases others with
    | denied => cases hc
    | parts as es =>
      cases hc
      obtain ⟨halt, hexc, hrest⟩ := ih rfl
      refine ⟨by simpa [hall, ha, hown] using halt, by simpa [ha] using hexc, fun r hr hm => ?_⟩
      rcases List.mem_cons.mp hr with rfl | hr
      · exact ⟨by rw [hs, hown], by simp [ha]⟩
      · exact hrest r hr hm
  | cut => cases hc
  | @deny rule rest others s ha hu hs _ ih =>
    have hown := Rule.ownSelector_eq hs
    cases others with
    | denied => cases hc
    | parts as es =>
      cases hc
      obtain ⟨halt, hexc, hrest⟩ := ih rfl
      refine ⟨by simpa [ha] using halt, by simpa [ha, hown] using hexc, fun r hr hm => ?_⟩
      rcases List.mem_cons.mp hr with rfl | hr
      · exact ⟨by rw [hs, hown], by simp [hu]⟩
      · exact hrest r hr hm

theorem Contribute.exists_of_denied {rules : List Rule}
    (h : Contribute schema store type allowed rules denied) :
    ∃ rule ∈ rules, rule.allows = false ∧ rule.isUnconditional = true := by
  have later : ∀ {rule : Rule} {rest : List Rule},
      (∃ r ∈ rest, r.allows = false ∧ r.isUnconditional = true) →
        ∃ r ∈ rule :: rest, r.allows = false ∧ r.isUnconditional = true :=
    fun ⟨r, hr, hd⟩ => ⟨r, List.mem_cons_of_mem _ hr, hd⟩
  generalize hc : denied = contributions at h
  induction h with
  | nil => cases hc
  | skip _ _ _ ih => exact later (ih hc)
  | cut ha hu => exact ⟨_, List.mem_cons_self, ha, hu⟩
  | @allow _ _ others _ _ _ _ _ ih | @deny _ _ others _ _ _ _ _ ih =>
    cases others with
    | denied => exact later (ih rfl)
    | parts as es => cases hc

theorem holds_selector [Pattern.Engine] (alternatives exclusions : List Selector)
    (entity : Document) :
    Filter.holds ((parts alternatives exclusions).selector allowed).document entity = (do
      if ← (if alternatives = [] then pure allowed
        else alternatives.anyM fun s => Filter.holds s.document entity) then
        exclusions.allM fun s => Filter.holds s.document entity
      else pure false) := by
  cases alternatives with
  | nil =>
    cases allowed with
    | true => exact Selector.holds_conjunction _ _
    | false => exact Selector.holds_nothing _
  | cons first rest =>
    have hne : first :: rest ≠ [] := List.cons_ne_nil _ _
    rw [if_neg hne, ← Selector.holds_disjunction hne, selector, Selector.holds_conjunction,
      List.allM_cons]
    exact hne

end Contributions

def Rule.loneScope? : List Rule → Option Selector
  | [⟨_, _, .scope s⟩] => some s
  | _ => none

def Rule.anyUnconditional (rules : List Rule) : Bool :=
  rules.any fun rule => rule.allows && rule.isUnconditional

section Scope
variable {schema : Schema} {store : Store} {type : EntityType} {rules : List Rule} {sel : Selector}

theorem scope_lone {s : Selector} (h : (scope schema store type rules).result = .ok sel)
    (hs : Rule.loneScope? (Rule.applicable rules type) = some s) : sel = s := by
  unfold Rule.loneScope? at hs
  unfold scope at h
  split at hs
  · next happ =>
    rw [happ] at h
    cases hs
    cases h
    rfl
  · cases hs

theorem scope_contributions (h : (scope schema store type rules).result = .ok sel)
    (hs : Rule.loneScope? (Rule.applicable rules type) = none) :
    ∃ contributions,
      (Contributions.ofRules schema store type
        (Rule.anyUnconditional (Rule.applicable rules type))
        (Rule.applicable rules type)).result = .ok contributions ∧
      sel = contributions.selector (Rule.anyUnconditional (Rule.applicable rules type)) := by
  unfold scope at h
  split at h
  · next happ =>
    rw [happ]
    cases h
    exact ⟨.parts [] [], rfl, rfl⟩
  · next happ =>
    rw [happ] at hs
    cases hs
  · split at h
    · cases h
    · obtain ⟨contributions, hc, h⟩ := Run.result_bind_ok h
      cases h
      exact ⟨contributions, hc, rfl⟩

theorem anyM_alternatives {ε : Type} (allowed : Bool) (select : Rule → Selector)
    (eval : Selector → Except ε Bool) (rules : List Rule) :
    (if (if allowed then [] else rules.map select) = [] then pure allowed
      else (if allowed then [] else rules.map select).anyM eval) =
      if allowed then pure true else rules.anyM fun rule => eval (select rule) := by
  cases allowed with
  | true => rfl
  | false =>
    cases rules with
    | nil => rfl
    | cons rule rest =>
      rw [← anyM_map select eval]
      rfl

/-- The filter of a scope, evaluated: nothing where a rule denies everything, and otherwise the
verdict of the rules' own selectors. -/
theorem holds_scope [Pattern.Engine] (h : (scope schema store type rules).result = .ok sel)
    (hs : Rule.loneScope? (Rule.applicable rules type) = none) (entity : Document) :
    (Filter.holds sel.document entity = .ok false ∧
      ∃ rule ∈ Rule.applicable rules type, rule.allows = false ∧ rule.isUnconditional = true) ∨
    (Filter.holds sel.document entity =
        Rule.verdict (Rule.anyUnconditional (Rule.applicable rules type))
          (fun rule => Filter.holds (rule.ownSelector schema store type).document entity)
          (Rule.applicable rules type) ∧
      ∀ rule ∈ Rule.applicable rules type,
        rule.Matters (Rule.anyUnconditional (Rule.applicable rules type)) →
          (rule.selector schema store type).result = .ok (rule.ownSelector schema store type) ∧
            (rule.allows || !rule.isUnconditional) = true) := by
  obtain ⟨contributions, hc, rfl⟩ := scope_contributions h hs
  have hc := Contributions.contribute_of_ok hc
  cases contributions with
  | denied => exact .inl ⟨Selector.holds_nothing entity, hc.exists_of_denied⟩
  | parts alternatives exclusions =>
    obtain ⟨halt, hexc, hown⟩ := hc.parts_eq
    refine .inr ⟨?_, hown⟩
    rw [Contributions.holds_selector, Rule.verdict, halt, hexc, allM_map, anyM_alternatives]
    simp only [Selector.holds_negation]

theorem exists_of_anyUnconditional {list : List Rule}
    (h : Rule.anyUnconditional list = true) :
    ∃ rule ∈ list, rule.allows = true ∧ rule.isUnconditional = true := by
  simpa [Rule.anyUnconditional] using h

/-- A scope that stands alone is taken as it is. Any other scope selects an entity, on which the
rules' own selectors can be evaluated, if one of those that allow selects it and none of those that
deny; and where no rule allows, or one denies everything, it selects nothing at all. -/
theorem scope_selects_permitted [Pattern.Engine]
    (h : (scope schema store type rules).result = .ok sel) (entity : Document) :
    (∀ s, Rule.loneScope? (Rule.applicable rules type) = some s → sel = s) ∧
    (Rule.loneScope? (Rule.applicable rules type) = none →
      ((∀ rule ∈ Rule.applicable rules type, rule.Evaluates schema store type entity) →
        Filter.holds sel.document entity =
          .ok (Rule.permitted (Rule.selects schema store type entity)
            (Rule.applicable rules type))) ∧
      ((∀ rule ∈ Rule.applicable rules type, rule.allows = false) ∨
          (∃ rule ∈ Rule.applicable rules type,
            rule.allows = false ∧ rule.isUnconditional = true) →
        Filter.holds sel.document entity = .ok false)) := by
  refine ⟨fun s hs => scope_lone h hs, fun hs => ?_⟩
  rcases holds_scope h hs entity with ⟨hfalse, deny, hdeny, hda, hdu⟩ | ⟨hverdict, hown⟩
  · refine ⟨fun _ => ?_, fun _ => hfalse⟩
    have hany : ((Rule.applicable rules type).any fun rule =>
        !rule.allows && rule.selects schema store type entity) = true := by
      rw [List.any_eq_true]
      exact ⟨deny, hdeny, by simp [hda, Rule.selects_of_isUnconditional hdu entity]⟩
    rw [hfalse, Rule.permitted, hany]
    simp
  · refine ⟨fun heval => ?_, fun hnone => ?_⟩
    · rw [hverdict]
      refine Rule.verdict_eq_ok (fun hall => ?_) fun rule hr _ =>
        Rule.holds_ownSelector (heval rule hr)
      obtain ⟨rule, hr, ha, hu⟩ := exists_of_anyUnconditional hall
      exact ⟨rule, hr, ha, Rule.selects_of_isUnconditional hu entity⟩
    · rcases hnone with hnone | ⟨deny, hdeny, hda, hdu⟩
      · have hall : Rule.anyUnconditional (Rule.applicable rules type) = false := by
          rw [Rule.anyUnconditional, List.any_eq_false]
          intro rule hr
          simp [hnone rule hr]
        rw [hverdict, hall]
        exact Rule.verdict_no_allow hnone
      · have hcond := (hown deny hdeny fun ha => by simp [hda] at ha).2
        simp [hda, hdu] at hcond

end Scope

theorem scope_selects_permitted_project :
    let rules : List Rule := [⟨.allow, .all, .scope ⟨[("bar", .int32 1)]⟩⟩,
      ⟨.deny, .all, .tree [("title", .scalar (.text "Lord"))]⟩]
    let sel : Selector := ⟨[("$and", .array [.document [("bar", .int32 1)],
      .document [("$nor", .array [.document [("title", .text "Lord")]])]])]⟩
    let entity : Document := [("bar", .int32 1), ("title", .text "Sir")]
    let store : MemoryStore := .ofEntries []
    (scope Schema.empty store ⟨"Project"⟩ rules).result = .ok sel ∧
      (∀ rule ∈ rules, rule.Evaluates Schema.empty store ⟨"Project"⟩ entity) ∧
      Filter.holds sel.document entity = .ok true := by
  intro rules sel entity store
  have hscope : (scope Schema.empty store ⟨"Project"⟩ rules).result = .ok sel := by
    with_unfolding_all rfl
  have heval : ∀ rule ∈ rules, rule.Evaluates Schema.empty store ⟨"Project"⟩ entity := by
    intro rule hr
    rcases List.mem_cons.mp hr with rfl | hr
    · exact ⟨⟨[("bar", .int32 1)]⟩, true, rfl, rfl⟩
    · rw [List.mem_singleton.mp hr]
      exact ⟨⟨[("title", .text "Lord")]⟩, false,
        by with_unfolding_all rfl, rfl⟩
  refine ⟨hscope, heval, ?_⟩
  rw [((scope_selects_permitted hscope entity).2 rfl).1 heval]
  with_unfolding_all rfl

end AccessRules
