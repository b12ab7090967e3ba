import AccessRules.Proofs.Consequence
import AccessRules.Proofs.Records
import AccessRules.RulesFile
import Mathlib.Data.List.Forall2

/-! Rules files and the rules they state. Every entry states one rule, or the first that states none
is reported. A rule is about every entity only where its entry gives no source for conditions, be it
that the key is missing or that nothing stands behind it, or writes an empty table of conditions.
How a text is read into settings does not matter here, as long as their tables are sorted. -/
namespace AccessRules

namespace Setting

/-- What an entry of a rules file is written with for one of its fields. -/
def entryField (name : String) (entry : Setting) : Option Setting :=
  (entry.named (WrittenRule.fields.map (·.1))).lookup name

/-- What an entry is written with for a field, unless it is null. -/
def given (name : String) (entry : Setting) : Option Setting :=
  match entry.entryField name with
  | some .null => none
  | found => found

def document? (v : Setting) : Option Document :=
  match v.toJson with
  | .ok json => (ExtendedJson.readDocument json).toOption
  | .error _ => none

/-- The criterion that an entry states by what it gives as conditions and as a scope. -/
def StatesCriterion : Option Setting → Option Setting → Criterion → Prop
  | some tree, none, criterion =>
    ∃ doc, tree.document? = some doc ∧ criterion = .tree (Tree.ofDocument doc)
  | none, some selector, criterion =>
    ∃ doc, selector.document? = some doc ∧ criterion = .scope ⟨doc⟩
  | none, none, criterion => criterion = .tree []
  | some _, some _, _ => False

/-- An entry states a rule: its behavior and its subject are those it is written with, and so is its
criterion. -/
structure States (entry : Setting) (rule : Rule) : Prop where
  behavior : ∃ v, entry.entryField "behavior" = some v ∧
    v.toChoice Behavior.ofName? = .ok rule.behavior
  subject : ∃ name, entry.entryField "subject" = some (.text name) ∧
    rule.subject = Subject.ofName name
  criterion : StatesCriterion (entry.given "conditions") (entry.given "scope") rule.conditions

/-- An entry can state a rule: it gives one source at most, and what it gives spells a document. -/
structure IsSound (entry : Setting) : Prop where
  exclusive : entry.given "conditions" = none ∨ entry.given "scope" = none
  conditions : ∀ v, entry.given "conditions" = some v → ∃ doc, v.document? = some doc
  scope : ∀ v, entry.given "scope" = some v → ∃ doc, v.document? = some doc

end Setting

namespace WrittenRule
open Setting (readField entryField given)
variable {parts parts' : Parts} {key name : String} {v item : Setting} {entry : WrittenRule}

theorem readField_cases (h : readField fields parts (key, v) = .ok parts') :
    (key = "behavior" ∧ ∃ b, v.toChoice Behavior.ofName? = .ok b ∧
      parts' = { parts with behavior := some b }) ∨
    (key = "subject" ∧ ∃ s, v.toText = .ok s ∧
      parts' = { parts with subject := some (Subject.ofName s) }) ∨
    (key = "conditions" ∧ ∃ json, v.optional Setting.toJson = .ok json ∧
      parts' = { parts with conditions := json }) ∨
    (key = "scope" ∧ ∃ json, v.optional Setting.toJson = .ok json ∧
      parts' = { parts with scope := json }) := by
  rw [readField] at h
  split at h
  · next read hread =>
    have hmem := KeyMap.mem_of_lookup hread
    simp only [fields, List.mem_cons, List.not_mem_nil, or_false, Prod.mk.injEq] at hmem
    obtain ⟨hkey, rfl⟩ | ⟨hkey, rfl⟩ | ⟨hkey, rfl⟩ | ⟨hkey, rfl⟩ := hmem
    · obtain ⟨b, hb, hpure⟩ := bind_eq_ok_iff.mp h
      cases hpure
      exact .inl ⟨hkey, b, hb, rfl⟩
    · obtain ⟨s, hs, hpure⟩ := bind_eq_ok_iff.mp h
      cases hpure
      exact .inr (.inl ⟨hkey, s, hs, rfl⟩)
    · obtain ⟨json, hjson, hpure⟩ := bind_eq_ok_iff.mp h
      cases hpure
      exact .inr (.inr (.inl ⟨hkey, json, hjson, rfl⟩))
    · obtain ⟨json, hjson, hpure⟩ := bind_eq_ok_iff.mp h
      cases hpure
      exact .inr (.inr (.inr ⟨hkey, json, hjson, rfl⟩))
  · cases h

def SourceRead (found : Option Setting) (read : Option Json) : Prop :=
  Option.Rel (fun v json => v.toJson = .ok json) found read

/-- An entry as it is written and as it is read. -/
structure ReadFrom (item : Setting) (entry : WrittenRule) : Prop where
  behavior : ∃ v, item.entryField "behavior" = some v ∧
    v.toChoice Behavior.ofName? = .ok entry.behavior
  subject : ∃ name, item.entryField "subject" = some (.text name) ∧
    entry.subject = Subject.ofName name
  conditions : SourceRead (item.given "conditions") entry.conditions
  scope : SourceRead (item.given "scope") entry.scope

theorem sourceRead_given {json : Option Json}
    (h : match item.entryField name with
      | some v => v.optional Setting.toJson = .ok json
      | none => json = none) : SourceRead (item.given name) json := by
  rw [given]
  split at h
  · next v hv =>
    rw [hv]
    obtain ⟨rfl, rfl⟩ | ⟨hne, j, hj, rfl⟩ := Setting.optional_eq_ok h
    · exact .none
    · split
      · next hnull => exact absurd (Option.some.inj hnull) hne
      · exact .some hj
  · next hnone =>
    rw [hnone, h]
    exact .none

theorem exists_of_part {α : Type} (read : Setting → Load α) {part : Option α} {a : α}
    {found : Option Setting}
    (h : match found with
      | some v => some <$> read v = .ok part
      | none => part = none) (hpart : part = some a) :
    ∃ v, found = some v ∧ read v = .ok a := by
  subst hpart
  split at h
  · next v =>
    obtain ⟨b, hread, hb⟩ := map_eq_ok_iff.mp h
    cases hb
    exact ⟨v, rfl, hread⟩
  · cases h

theorem setsPart_behavior :
    Setting.SetsPart fields "behavior" Parts.behavior fun v =>
      some <$> v.toChoice Behavior.ofName? := by
  intro parts key v parts' h
  obtain ⟨rfl, b, hb, rfl⟩ | ⟨rfl, s, -, rfl⟩ | ⟨rfl, json, -, rfl⟩ | ⟨rfl, json, -, rfl⟩ :=
    readField_cases h
  · exact .inl ⟨rfl, congrArg (some <$> ·) hb⟩
  · exact .inr ⟨by decide, rfl⟩
  · exact .inr ⟨by decide, rfl⟩
  · exact .inr ⟨by decide, rfl⟩

theorem setsPart_subject :
    Setting.SetsPart fields "subject" Parts.subject fun v =>
      some <$> Subject.ofName <$> v.toText := by
  intro parts key v parts' h
  obtain ⟨rfl, b, -, rfl⟩ | ⟨rfl, s, hs, rfl⟩ | ⟨rfl, json, -, rfl⟩ | ⟨rfl, json, -, rfl⟩ :=
    readField_cases h
  · exact .inr ⟨by decide, rfl⟩
  · exact .inl ⟨rfl, congrArg (some <$> Subject.ofName <$> ·) hs⟩
  · exact .inr ⟨by decide, rfl⟩
  · exact .inr ⟨by decide, rfl⟩

theorem setsPart_conditions :
    Setting.SetsPart fields "conditions" Parts.conditions (Setting.optional Setting.toJson) := by
  intro parts key v parts' h
  obtain ⟨rfl, b, -, rfl⟩ | ⟨rfl, s, -, rfl⟩ | ⟨rfl, json, hj, rfl⟩ | ⟨rfl, json, -, rfl⟩ :=
    readField_cases h
  · exact .inr ⟨by decide, rfl⟩
  · exact .inr ⟨by decide, rfl⟩
  · exact .inl ⟨rfl, hj⟩
  · exact .inr ⟨by decide, rfl⟩

theorem setsPart_scope :
    Setting.SetsPart fields "scope" Parts.scope (Setting.optional Setting.toJson) := by
  intro parts key v parts' h
  obtain ⟨rfl, b, -, rfl⟩ | ⟨rfl, s, -, rfl⟩ | ⟨rfl, json, -, rfl⟩ | ⟨rfl, json, hj, rfl⟩ :=
    readField_cases h
  · exact .inr ⟨by decide, rfl⟩
  · exact .inr ⟨by decide, rfl⟩
  · exact .inr ⟨by decide, rfl⟩
  · exact .inl ⟨rfl, hj⟩

theorem readFrom_of_ofSetting (hordered : item.IsOrdered) (h : ofSetting item = .ok entry) :
    ReadFrom item entry := by
  have hnames : (fields.map (·.1)).Nodup := by decide
  obtain ⟨⟨parts, missing⟩, hparts, h⟩ := bind_eq_ok_iff.mp h
  have hbehavior := setsPart_behavior.of_toRecord hnames hordered hparts
  have hsubject := setsPart_subject.of_toRecord hnames hordered hparts
  have hconditions := setsPart_conditions.of_toRecord hnames hordered hparts
  have hscope := setsPart_scope.of_toRecord hnames hordered hparts
  dsimp only at h
  split at h
  · next behavior subject hb hs =>
    cases h
    refine ⟨exists_of_part _ hbehavior hb, ?_, sourceRead_given hconditions,
      sourceRead_given hscope⟩
    obtain ⟨v, hv, hread⟩ := exists_of_part (fun v => Subject.ofName <$> v.toText) hsubject hs
    cases v with
    | text name =>
      cases hread
      exact ⟨name, hv, rfl⟩
    | _ => cases hread
  · cases h

section Sources
open Setting (StatesCriterion)
variable {tree selector : Option Setting} {conditions scope : Option Json}
  {behavior : Behavior} {subject : Subject} {rule : Rule} {criterion : Criterion}

theorem document?_eq_some_iff {v : Setting} {json : Json} (h : v.toJson = .ok json)
    {doc : Document} : v.document? = some doc ↔ ExtendedJson.readDocument json = .ok doc := by
  rw [Setting.document?, h]
  dsimp only
  cases ExtendedJson.readDocument json with
  | error fault => exact ⟨nofun, nofun⟩
  | ok found =>
    rw [Except.ok.injEq]
    exact Option.some_inj

theorem pure_eq_ok_iff : (pure ⟨behavior, subject, criterion⟩ : Except RuleFault Rule) = .ok rule ↔
    rule.conditions = criterion ∧ rule.behavior = behavior ∧ rule.subject = subject := by
  obtain ⟨b, s, c⟩ := rule
  constructor
  · rintro ⟨⟩
    exact ⟨rfl, rfl, rfl⟩
  · rintro ⟨rfl, rfl, rfl⟩
    rfl

theorem readSource_eq_ok_iff {v : Setting} {json : Json} (h : v.toJson = .ok json)
    (make : Document → Criterion) :
    (do
      let doc ← (ExtendedJson.readDocument json).mapError RuleFault.document
      pure (⟨behavior, subject, make doc⟩ : Rule)) = .ok rule ↔
      (∃ doc, v.document? = some doc ∧ rule.conditions = make doc) ∧
        rule.behavior = behavior ∧ rule.subject = subject := by
  rw [bind_eq_ok_iff]
  simp only [mapError_eq_ok, pure_eq_ok_iff, document?_eq_some_iff h, ← and_assoc,
    exists_and_right]

theorem toRule_eq_ok_iff (htree : SourceRead tree conditions) (hscope : SourceRead selector scope) :
    (⟨behavior, subject, conditions, scope⟩ : WrittenRule).toRule = .ok rule ↔
      StatesCriterion tree selector rule.conditions ∧ rule.behavior = behavior ∧
        rule.subject = subject := by
  cases htree with
  | none =>
    cases hscope with
    | none => exact pure_eq_ok_iff
    | some hselector => exact readSource_eq_ok_iff hselector fun doc => .scope ⟨doc⟩
  | some htree =>
    cases hscope with
    | none => exact readSource_eq_ok_iff htree fun doc => .tree (Tree.ofDocument doc)
    | some hselector => exact ⟨nofun, fun h => h.1.elim⟩

theorem exists_criterion_iff : (∃ criterion, StatesCriterion tree selector criterion) ↔
    (tree = none ∨ selector = none) ∧ (∀ v, tree = some v → ∃ doc, v.document? = some doc) ∧
      ∀ v, selector = some v → ∃ doc, v.document? = some doc := by
  have hsource : ∀ {v : Setting} {make : Document → Criterion},
      (∃ criterion doc, v.document? = some doc ∧ criterion = make doc) ↔
        ∃ doc, v.document? = some doc :=
    ⟨fun ⟨_, doc, hdoc, _⟩ => ⟨doc, hdoc⟩, fun ⟨doc, hdoc⟩ => ⟨_, doc, hdoc, rfl⟩⟩
  cases tree with
  | none =>
    cases selector with
    | none => exact ⟨fun _ => ⟨.inl rfl, nofun, nofun⟩, fun _ => ⟨_, rfl⟩⟩
    | some v => simp [StatesCriterion, hsource]
  | some v =>
    cases selector with
    | none => simp [StatesCriterion, hsource]
    | some w => simp [StatesCriterion]

end Sources

theorem ReadFrom.states (hread : ReadFrom item entry) {rule : Rule} (h : entry.toRule = .ok rule) :
    item.States rule := by
  obtain ⟨hcriterion, hbehavior, hsubject⟩ := (toRule_eq_ok_iff hread.conditions hread.scope).mp h
  refine ⟨?_, ?_, hcriterion⟩
  · rw [hbehavior]
    exact hread.behavior
  · rw [hsubject]
    exact hread.subject

theorem ReadFrom.exists_rule_iff (hread : ReadFrom item entry) :
    (∃ rule, entry.toRule = .ok rule) ↔ item.IsSound := by
  have hrule : (∃ rule, entry.toRule = .ok rule) ↔
      ∃ criterion, Setting.StatesCriterion (item.given "conditions") (item.given "scope")
        criterion := by
    constructor
    · rintro ⟨rule, h⟩
      exact ⟨_, (hread.states h).criterion⟩
    · rintro ⟨criterion, h⟩
      exact ⟨⟨entry.behavior, entry.subject, criterion⟩,
        (toRule_eq_ok_iff hread.conditions hread.scope).mpr ⟨h, rfl, rfl⟩⟩
  rw [hrule, exists_criterion_iff]
  exact ⟨fun ⟨h, h', h''⟩ => ⟨h, h', h''⟩, fun ⟨h, h', h''⟩ => ⟨h, h', h''⟩⟩

end WrittenRule

section Empty

@[simp] theorem KeyMap.ofList_eq_nil_iff {α : Type} {entries : List (String × α)} :
    ofList entries = [] ↔ entries = [] := by
  constructor
  · intro h
    obtain rfl | ⟨front, last, rfl⟩ := List.eq_nil_or_concat entries
    · rfl
    · rw [List.concat_eq_append, ofList, List.foldl_append] at h
      exact absurd h (alter_ne_nil _ _ _)
  · rintro rfl
    rfl

@[simp] theorem Tree.ofDocument_eq_nil_iff {doc : Document} : ofDocument doc = [] ↔ doc = [] := by
  rw [ofDocument, KeyMap.ofList_eq_nil_iff]
  cases doc with
  | nil => exact ⟨fun _ => rfl, fun _ => rfl⟩
  | cons field rest => exact ⟨nofun, nofun⟩

theorem ExtendedJson.eq_of_read_empty {json : Json} (h : read? json = some (.document [])) :
    json = .object [] := by
  cases json with
  | null => cases h
  | bool b => cases h
  | text s => cases h
  | integer n =>
    rw [read?, number] at h
    split at h
    · cases h
    · split at h <;> cases h
  | double x => cases h
  | array items =>
    obtain ⟨vs, -, hvs⟩ := Option.map_eq_some_iff.mp h
    cases hvs
  | object fields =>
    rw [read?] at h
    split at h
    · obtain ⟨doc, hdoc, hempty⟩ := Option.map_eq_some_iff.mp h
      cases hempty
      cases fields with
      | nil => rfl
      | cons field rest =>
        simp only [readFields?, Option.bind_eq_bind, Option.bind_eq_some_iff] at hdoc
        obtain ⟨v, -, others, -, hcons⟩ := hdoc
        cases hcons
    · cases h
    · obtain ⟨scope, -, hscope⟩ := Option.map_eq_some_iff.mp h
      cases scope <;> cases hscope
    · cases h

theorem Setting.eq_of_toJson_empty {v : Setting} (h : v.toJson = .ok (.object [])) :
    v = .table [] := by
  cases v with
  | null => cases h
  | bool b => cases h
  | text s => cases h
  | integer n =>
    rw [toJson] at h
    split at h <;> cases h
  | double x =>
    rw [toJson, Except.ok.injEq] at h
    split at h <;> cases h
  | list items =>
    obtain ⟨vs, -, hvs⟩ := map_eq_ok_iff.mp h
    cases hvs
  | table entries =>
    obtain ⟨fields, hfields, hempty⟩ := map_eq_ok_iff.mp h
    cases hempty
    cases entries with
    | nil => rfl
    | cons entry rest =>
      obtain ⟨v, -, h⟩ := bind_eq_ok_iff.mp hfields
      obtain ⟨others, -, hcons⟩ := bind_eq_ok_iff.mp h
      cases hcons

@[simp] theorem Setting.document?_eq_empty_iff {v : Setting} :
    v.document? = some [] ↔ v = .table [] := by
  constructor
  · intro h
    cases hjson : v.toJson with
    | error e =>
      rw [document?, hjson] at h
      cases h
    | ok json =>
      have hdoc := (WrittenRule.document?_eq_some_iff hjson).mp h
      rw [ExtendedJson.readDocument] at hdoc
      split at hdoc
      · next doc hread =>
        cases hdoc
        rw [ExtendedJson.eq_of_read_empty hread] at hjson
        exact eq_of_toJson_empty hjson
      · cases hdoc
      · cases hdoc
  · rintro rfl
    rfl

end Empty

namespace Setting
variable {entry : Setting} {rule : Rule}

theorem given_eq_some_iff {name : String} {v : Setting} :
    entry.given name = some v ↔ entry.entryField name = some v ∧ v ≠ .null := by
  rw [given]
  split
  · next hnull =>
    rw [hnull]
    constructor
    · exact nofun
    · rintro ⟨⟨⟩, hne⟩
      exact absurd rfl hne
  · next hnot =>
    constructor
    · intro h
      refine ⟨h, ?_⟩
      rintro rfl
      exact hnot h
    · exact fun h => h.1

/-- A rule is about every entity where its entry gives no source or an empty table of conditions. -/
theorem States.isUnconditional_iff (h : entry.States rule) :
    rule.isUnconditional = true ↔
      entry.given "conditions" = none ∧ entry.given "scope" = none ∨
        entry.entryField "conditions" = some (.table []) := by
  have hempty : entry.entryField "conditions" = some (.table []) ↔
      entry.given "conditions" = some (.table []) := by
    rw [given_eq_some_iff]
    exact ⟨fun h => ⟨h, nofun⟩, fun h => h.1⟩
  have hcriterion := h.criterion
  rw [hempty, Rule.isUnconditional]
  generalize entry.given "conditions" = tree, entry.given "scope" = selector at *
  cases tree with
  | none =>
    cases selector with
    | none =>
      rw [hcriterion]
      exact ⟨fun _ => .inl ⟨rfl, rfl⟩, fun _ => rfl⟩
    | some v =>
      obtain ⟨doc, -, hscope⟩ := hcriterion
      rw [hscope]
      constructor
      · exact nofun
      · rintro (⟨-, hnone⟩ | hnone) <;> cases hnone
  | some v =>
    cases selector with
    | none =>
      obtain ⟨doc, hdoc, htree⟩ := hcriterion
      rw [htree]
      dsimp only
      rw [List.isEmpty_iff, Tree.ofDocument_eq_nil_iff, Option.some.injEq]
      constructor
      · rintro rfl
        exact .inr (document?_eq_empty_iff.mp hdoc)
      · rintro (⟨⟨⟩, -⟩ | rfl)
        have hnil := document?_eq_empty_iff.mpr rfl
        exact Option.some.inj (hdoc.symm.trans hnil)
    | some w => exact hcriterion.elim

end Setting

namespace RulesFile
open WrittenRule (ReadFrom)
variable {file : Setting} {items : List Setting} {entries : List WrittenRule} {rules : List Rule}

/-- The entries of a rules file as they are written. -/
def written (file : Setting) : List Setting :=
  match (file.named ["rules"]).lookup "rules" with
  | some (.list items) => items
  | _ => []

/-- The entry at an index is the first that cannot state a rule. -/
def FirstUnsound (written : List Setting) (index : Nat) : Prop :=
  ∃ before item after, written = before ++ item :: after ∧ before.length = index ∧
    (∀ other ∈ before, other.IsSound) ∧ ¬item.IsSound

theorem readFrom_of_mapM (hordered : ∀ item ∈ items, item.IsOrdered)
    (h : items.mapM WrittenRule.ofSetting = .ok entries) : List.Forall₂ ReadFrom items entries := by
  induction items generalizing entries with
  | nil =>
    cases h
    exact .nil
  | cons item items ih =>
    rw [List.mapM_cons] at h
    obtain ⟨entry, hentry, h⟩ := bind_eq_ok_iff.mp h
    obtain ⟨more, hmore, hcons⟩ := bind_eq_ok_iff.mp h
    cases hcons
    obtain ⟨hitem, hitems⟩ := List.forall_mem_cons.mp hordered
    exact .cons (WrittenRule.readFrom_of_ofSetting hitem hentry) (ih hitems hmore)

theorem setsPart_rules : Setting.SetsPart
    [("rules", fun _ v => v.toList WrittenRule.ofSetting)] "rules" id
    (Setting.toList WrittenRule.ofSetting) := by
  intro parts key v parts' h
  rw [Setting.readField] at h
  split at h
  · next read hread =>
    cases List.mem_singleton.mp (KeyMap.mem_of_lookup hread)
    exact .inl ⟨rfl, h⟩
  · cases h

theorem readFrom_of_entriesOfSetting (hordered : file.IsOrdered)
    (h : entriesOfSetting file = .ok entries) : List.Forall₂ ReadFrom (written file) entries := by
  obtain ⟨⟨found, missing⟩, hrecord, hpure⟩ := bind_eq_ok_iff.mp h
  cases hpure
  have hrules := setsPart_rules.of_toRecord (by decide) hordered hrecord
  rw [written]
  split at hrules
  · next v hv =>
    rw [show (file.named ["rules"]).lookup "rules" = some v from hv]
    cases v with
    | list items =>
      have hitems : (Setting.list items).IsOrdered := Setting.isOrdered_of_named hordered hv
      exact readFrom_of_mapM (Setting.itemsOrdered_iff.mp hitems) hrules
    | _ => cases hrules
  · next hnone =>
    rw [show (file.named ["rules"]).lookup "rules" = none from hnone,
      show found = [] from hrules]
    exact .nil

theorem states_of_rulesFrom {index : Nat} (h : List.Forall₂ ReadFrom items entries)
    (hrules : rulesFrom index entries = .ok rules) : List.Forall₂ Setting.States items rules := by
  induction h generalizing index rules with
  | nil =>
    cases hrules
    exact .nil
  | cons hread _ ih =>
    obtain ⟨rule, hrule, hrules⟩ := bind_eq_ok_iff.mp hrules
    obtain ⟨more, hmore, hcons⟩ := bind_eq_ok_iff.mp hrules
    cases hcons
    exact .cons (hread.states (mapError_eq_ok.mp hrule)) (ih hmore)

theorem exists_rulesFrom {index : Nat} (h : List.Forall₂ ReadFrom items entries)
    (hsound : ∀ item ∈ items, item.IsSound) : ∃ rules, rulesFrom index entries = .ok rules := by
  induction h generalizing index with
  | nil => exact ⟨[], rfl⟩
  | cons hread _ ih =>
    obtain ⟨hfirst, hrest⟩ := List.forall_mem_cons.mp hsound
    obtain ⟨rule, hrule⟩ := hread.exists_rule_iff.mpr hfirst
    obtain ⟨rules, hrules⟩ := @ih (index + 1) hrest
    exact ⟨rule :: rules, bind_eq_ok_iff.mpr ⟨rule, mapError_eq_ok.mpr hrule,
      bind_eq_ok_iff.mpr ⟨rules, hrules, rfl⟩⟩⟩

theorem rulesFrom_of_unsound {index : Nat} (h : List.Forall₂ ReadFrom items entries)
    (hunsound : ¬∀ item ∈ items, item.IsSound) :
    ∃ offset fault, FirstUnsound items offset ∧
      rulesFrom index entries = .error (.rule (index + offset) fault) := by
  induction h generalizing index with
  | nil => exact absurd (fun _ h => absurd h List.not_mem_nil) hunsound
  | @cons item entry items entries hread hrest ih =>
    cases hrule : entry.toRule with
    | error fault =>
      have hitem : ¬item.IsSound := fun hsound => by
        obtain ⟨rule, hok⟩ := hread.exists_rule_iff.mpr hsound
        rw [hrule] at hok
        cases hok
      refine ⟨0, fault, ⟨[], item, items, rfl, rfl, nofun, hitem⟩, ?_⟩
      rw [rulesFrom, hrule]
      rfl
    | ok rule =>
      have hitem := hread.exists_rule_iff.mp ⟨rule, hrule⟩
      have hlater : ¬∀ item ∈ items, item.IsSound := fun hall =>
        hunsound (List.forall_mem_cons.mpr ⟨hitem, hall⟩)
      obtain ⟨offset, fault, ⟨before, bad, after, rfl, rfl, hbefore, hbad⟩, herror⟩ :=
        @ih (index + 1) hlater
      refine ⟨_, fault, ⟨item :: before, bad, after, rfl, rfl,
        List.forall_mem_cons.mpr ⟨hitem, hbefore⟩, hbad⟩, ?_⟩
      rw [rulesFrom, hrule, List.length_cons, ← Nat.add_assoc, Nat.add_right_comm]
      change rulesFrom (index + 1) _ >>= _ = _
      rw [herror]
      rfl

/-- A rules file becomes its rules: every entry states the rule at its place, or the first that
cannot is named by its index, and no rules are made. A rule is about every entity of its subject
only where its entry has nothing but null, if anything, behind the keys of its sources, or an empty
table of conditions. -/
theorem toRules_of_entries (hordered : file.IsOrdered) (h : entriesOfSetting file = .ok entries) :
    entries.length = (written file).length ∧
      ((∃ rules, toRules entries = .ok rules) ↔ ∀ item ∈ written file, item.IsSound) ∧
      ((¬∀ item ∈ written file, item.IsSound) → ∃ index fault, FirstUnsound (written file) index ∧
        toRules entries = .error (.rule index fault) ∧
        ∃ reason, (RulesError.rule index fault).message? =
          some ("rule #" ++ toString index ++ ": " ++ reason)) ∧
      ∀ rules, toRules entries = .ok rules → List.Forall₂ (fun item rule => item.States rule ∧
        (rule.isUnconditional = true ↔
          item.given "conditions" = none ∧ item.given "scope" = none ∨
            item.entryField "conditions" = some (.table []))) (written file) rules := by
  have hread := readFrom_of_entriesOfSetting hordered h
  have hunsound : (¬∀ item ∈ written file, item.IsSound) → ∃ index fault,
      FirstUnsound (written file) index ∧ toRules entries = .error (.rule index fault) := by
    intro hnot
    obtain ⟨offset, fault, hfirst, herror⟩ := @rulesFrom_of_unsound _ _ 0 hread hnot
    rw [Nat.zero_add] at herror
    exact ⟨offset, fault, hfirst, herror⟩
  refine ⟨hread.length_eq.symm, ⟨?_, exists_rulesFrom hread⟩, ?_, ?_⟩
  · rintro ⟨rules, hrules⟩
    by_contra hnot
    obtain ⟨index, fault, -, herror⟩ := hunsound hnot
    rw [hrules] at herror
    cases herror
  · intro hnot
    obtain ⟨index, fault, hfirst, herror⟩ := hunsound hnot
    exact ⟨index, fault, hfirst, herror, fault.message, rfl⟩
  · intro rules hrules
    exact (states_of_rulesFrom hread hrules).imp fun item rule hstates =>
      ⟨hstates, hstates.isUnconditional_iff⟩

theorem exists_file_of_entries {yaml : String} (h : RulesFile.entries yaml = .ok entries) :
    ∃ file : Setting, file.IsOrdered ∧ entriesOfSetting file = .ok entries := by
  obtain ⟨file, hfile, hentries⟩ := bind_eq_ok_iff.mp h
  refine ⟨file, ?_, hentries⟩
  rw [Configuration.readFile] at hfile
  split at hfile
  · next fields hparse =>
    cases hfile
    exact Yaml.isOrdered_parse hparse
  · cases hfile

def ofItems (items : List Setting) : Setting := .table [("rules", .list items)]

def posts : Setting := ofItems [
  .table [("behavior", .text "deny"), ("conditions", .table [("old", .bool true)]),
    ("subject", .text "all")],
  .table [("behavior", .text "allow"), ("scope", .null), ("subject", .text "Post")]]

def twoSources : Setting := ofItems [
  .table [("behavior", .text "allow"), ("subject", .text "Tag")],
  .table [("behavior", .text "deny"), ("conditions", .table [("a", .integer 1)]),
    ("scope", .table [("b", .integer 2)]), ("subject", .text "Post")]]

theorem toRules_of_entries_posts :
    (posts.IsOrdered ∧ ∃ entries rules, entriesOfSetting posts = .ok entries ∧
      toRules entries = .ok rules ∧ rules.map Rule.isUnconditional = [false, true] ∧
      List.Forall₂ Setting.States (written posts) rules) ∧
    twoSources.IsOrdered ∧ ∃ entries, entriesOfSetting twoSources = .ok entries ∧
      toRules entries = .error (.rule 1 .twoSources) ∧ FirstUnsound (written twoSources) 1 := by
  have hposts : posts.IsOrdered := by
    simp only [posts, ofItems, Setting.IsOrdered, Setting.ItemsOrdered, Setting.EntriesOrdered,
      KeyMap.Sorted]
    decide
  have hsources : twoSources.IsOrdered := by
    simp only [twoSources, ofItems, Setting.IsOrdered, Setting.ItemsOrdered, Setting.EntriesOrdered,
      KeyMap.Sorted]
    decide
  refine ⟨⟨hposts, ?_⟩, hsources, ?_⟩
  · have hentries : entriesOfSetting posts =
        .ok [⟨.deny, .all, some (.object [("old", .bool true)]), none⟩,
          ⟨.allow, .type ⟨"Post"⟩, none, none⟩] := rfl
    obtain ⟨-, -, -, hstates⟩ := toRules_of_entries hposts hentries
    refine ⟨_, _, hentries, rfl, rfl, (hstates _ rfl).imp fun _ _ h => h.1⟩
  · have hentries : entriesOfSetting twoSources =
        .ok [⟨.allow, .type ⟨"Tag"⟩, none, none⟩,
          ⟨.deny, .type ⟨"Post"⟩, some (.object [("a", .integer 1)]),
            some (.object [("b", .integer 2)])⟩] := rfl
    obtain ⟨-, hsound, hunsound, -⟩ := toRules_of_entries hsources hentries
    have hnot : ¬∀ item ∈ written twoSources, item.IsSound := by
      rw [← hsound]
      rintro ⟨rules, ⟨⟩⟩
    obtain ⟨index, fault, hfirst, hfault, -⟩ := hunsound hnot
    cases hfault
    exact ⟨_, hentries, rfl, hfirst⟩

def blankConditions : Setting := ofItems [
  .table [("behavior", .text "allow"), ("conditions", .null), ("subject", .text "Post")]]

/-- A key with nothing behind it is read as if it were not there, so its rule is about every
entity. -/
theorem blankConditions_unconditional : ∃ entries rules item,
    entriesOfSetting blankConditions = .ok entries ∧ toRules entries = .ok rules ∧
      rules.map (fun rule => (rule.allows, rule.isUnconditional)) = [(true, true)] ∧
      written blankConditions = [item] ∧ item.entryField "conditions" = some .null :=
  ⟨_, _, _, rfl, rfl, rfl, rfl, rfl⟩

end RulesFile
end AccessRules
