import AccessRules.Proofs.Grouping
import AccessRules.Setting.Fields
import AccessRules.Yaml

/-! Records in settings. The tables of a text are sorted by their keys, so a record takes each of
its fields from one place of what is written, if it is written there at all. -/
namespace AccessRules

theorem bind_eq_ok_iff {ε α β : Type} {r : Except ε α} {next : α → Except ε β} {b : β} :
    r >>= next = .ok b ↔ ∃ a, r = .ok a ∧ next a = .ok b := by
  cases r with
  | error e => exact ⟨nofun, fun ⟨a, ha, _⟩ => nomatch ha⟩
  | ok a =>
    constructor
    · exact fun h => ⟨a, rfl, h⟩
    · rintro ⟨_, ⟨⟩, h⟩
      exact h

theorem map_eq_ok_iff {ε α β : Type} {r : Except ε α} {f : α → β} {b : β} :
    r.map f = .ok b ↔ ∃ a, r = .ok a ∧ f a = b := by
  cases r with
  | error e => exact ⟨nofun, fun ⟨a, ha, _⟩ => nomatch ha⟩
  | ok a =>
    constructor
    · rintro ⟨⟩
      exact ⟨a, rfl, rfl⟩
    · rintro ⟨_, ⟨⟩, rfl⟩
      rfl

namespace Setting

mutual

/-- The tables of a setting are sorted, at any depth. -/
def IsOrdered : Setting → Prop
  | .list items => ItemsOrdered items
  | .table entries => KeyMap.Sorted entries ∧ EntriesOrdered entries
  | _ => True

def ItemsOrdered : List Setting → Prop
  | [] => True
  | v :: vs => v.IsOrdered ∧ ItemsOrdered vs

def EntriesOrdered : List (String × Setting) → Prop
  | [] => True
  | (_, v) :: rest => v.IsOrdered ∧ EntriesOrdered rest

end

@[simp] theorem itemsOrdered_iff {items : List Setting} :
    ItemsOrdered items ↔ ∀ v ∈ items, v.IsOrdered := by
  induction items with
  | nil => simp [ItemsOrdered]
  | cons v vs ih => rw [ItemsOrdered, ih, List.forall_mem_cons]

@[simp] theorem entriesOrdered_iff {entries : List (String × Setting)} :
    EntriesOrdered entries ↔ ∀ entry ∈ entries, entry.2.IsOrdered := by
  induction entries with
  | nil => simp [EntriesOrdered]
  | cons entry rest ih => rw [EntriesOrdered, ih, List.forall_mem_cons]

end Setting

namespace Yaml

theorem isOrdered_plainSetting (s : String) : (plainSetting s).IsOrdered := by
  unfold plainSetting
  split
  case h_12 =>
    split
    · exact trivial
    · split <;> exact trivial
  all_goals exact trivial

mutual

theorem Node.isOrdered (node : Node) {v : Setting} (h : node.setting? = some v) :
    v.IsOrdered := by
  match node with
  | .plain s =>
    cases h
    exact isOrdered_plainSetting s
  | .quoted s =>
    cases h
    exact trivial
  | .list items =>
    obtain ⟨all, hall, rfl⟩ := Option.map_eq_some_iff.mp h
    exact Node.itemsOrdered items hall
  | .mapping entries =>
    obtain ⟨all, hall, rfl⟩ := Option.map_eq_some_iff.mp h
    refine ⟨KeyMap.sorted_ofList all, Setting.entriesOrdered_iff.mpr fun entry he => ?_⟩
    exact Setting.entriesOrdered_iff.mp (Node.entriesOrdered entries hall) entry
      (KeyMap.mem_of_mem_ofList he)

theorem Node.itemsOrdered (items : List Node) {all : List Setting}
    (h : Node.settings? items = some all) : Setting.ItemsOrdered all := by
  match items with
  | [] =>
    cases h
    exact trivial
  | item :: items =>
    simp only [Node.settings?, Option.bind_eq_bind, Option.bind_eq_some_iff] at h
    obtain ⟨first, hfirst, rest, hrest, h⟩ := h
    cases h
    exact ⟨item.isOrdered hfirst, Node.itemsOrdered items hrest⟩

theorem Node.entriesOrdered (entries : List (Node × Node)) {all : List (String × Setting)}
    (h : Node.entries? entries = some all) : Setting.EntriesOrdered all := by
  match entries with
  | [] =>
    cases h
    exact trivial
  | (key, value) :: entries =>
    simp only [Node.entries?, Option.bind_eq_bind, Option.bind_eq_some_iff] at h
    obtain ⟨name, -, v, hv, rest, hrest, h⟩ := h
    cases h
    exact ⟨value.isOrdered hv, Node.entriesOrdered entries hrest⟩

end

theorem isOrdered_parse {text : String} {v : Setting} (h : parse text = some v) :
    v.IsOrdered := by
  obtain ⟨node, -, hnode⟩ := Option.bind_eq_some_iff.mp h
  exact node.isOrdered hnode

end Yaml

namespace Setting
variable {σ α : Type} {fields : Fields σ} {initial result : σ} {missing : LoadError}
  {names : List String} {name : String} {v : Setting}

theorem optional_eq_ok {read : Setting → Load α} {found : Option α}
    (h : v.optional read = .ok found) :
    v = null ∧ found = none ∨ v ≠ null ∧ ∃ a, read v = .ok a ∧ found = some a := by
  unfold optional at h
  split at h
  · cases h
    exact .inl ⟨rfl, rfl⟩
  · next hne =>
    obtain ⟨a, ha, rfl⟩ := map_eq_ok_iff.mp h
    exact .inr ⟨hne, a, ha, rfl⟩

/-- What a record is written with under the names of its fields: the entries of a table, and the
items of a list in the order of the names. -/
def named (names : List String) : Setting → List (String × Setting)
  | table entries => entries
  | list items => names.zip items
  | _ => []

theorem isOrdered_of_named (h : v.IsOrdered) {w : Setting}
    (hw : (v.named names).lookup name = some w) : w.IsOrdered := by
  have hmem := KeyMap.mem_of_lookup hw
  cases v with
  | table entries => exact entriesOrdered_iff.mp h.2 _ hmem
  | list items => exact itemsOrdered_iff.mp h _ (List.of_mem_zip hmem).2
  | _ => cases hmem

def readField (fields : Fields σ) (parts : σ) (entry : String × Setting) : Load σ :=
  match fields.lookup entry.1 with
  | some read => read parts entry.2
  | none => throw .unknownField

theorem nodup_named (hnames : names.Nodup) (h : v.IsOrdered) :
    ((v.named names).map (·.1)).Nodup := by
  cases v with
  | table entries => exact KeyMap.Sorted.nodup h.1
  | list items =>
    have hsublist : ∀ (names : List String) (items : List Setting),
        ((names.zip items).map (·.1)).Sublist names := by
      intro names
      induction names with
      | nil => simp
      | cons name names ih =>
        rintro (_ | ⟨item, items⟩)
        · exact List.nil_sublist _
        · exact (ih items).cons_cons name
    exact hnames.sublist (hsublist names items)
  | _ => exact List.nodup_nil

theorem foldlM_zip (hnames : (fields.map (·.1)).Nodup) {front : Fields σ}
    (hfront : front ⊆ fields) (items : List Setting) (parts : σ) :
    (front.zip items).foldlM (fun parts (field, v) => field.2 parts v) parts =
      ((front.map (·.1)).zip items).foldlM (readField fields) parts := by
  induction front generalizing items parts with
  | nil => rfl
  | cons field rest ih =>
    cases items with
    | nil => rfl
    | cons item items =>
      obtain ⟨hfield, hrest⟩ := List.cons_subset.mp hfront
      have hread : readField fields parts (field.1, item) = field.2 parts item := by
        rw [readField, (KeyMap.lookup_eq_some_iff hnames).mpr hfield]
      simp only [List.map_cons, List.zip_cons_cons, List.foldlM_cons, hread, ih hrest]

theorem foldlM_of_toRecord (hnames : (fields.map (·.1)).Nodup)
    (h : v.toRecord fields initial = .ok (result, missing)) :
    (v.named (fields.map (·.1))).foldlM (readField fields) initial = .ok result := by
  cases v with
  | table entries =>
    obtain ⟨parts, hparts, hpure⟩ := bind_eq_ok_iff.mp h
    cases hpure
    exact hparts
  | list items =>
    obtain ⟨parts, hparts, hpure⟩ := bind_eq_ok_iff.mp h
    cases hpure
    rwa [named, ← foldlM_zip hnames (List.Subset.refl fields)]
  | _ => cases h

/-- Among the fields of a record one alone sets a part of what is read, and it sets it to what it
reads. -/
def SetsPart (fields : Fields σ) (name : String) (get : σ → α) (read : Setting → Load α) : Prop :=
  ∀ {parts key v parts'}, readField fields parts (key, v) = .ok parts' →
    key = name ∧ read v = .ok (get parts') ∨ key ≠ name ∧ get parts' = get parts

section Parts
variable {get : σ → α} {read : Setting → Load α} (hpart : SetsPart fields name get read)
include hpart

theorem SetsPart.of_foldlM {entries : List (String × Setting)}
    (hnodup : (entries.map (·.1)).Nodup)
    (h : entries.foldlM (readField fields) initial = .ok result) :
    match entries.lookup name with
    | some v => read v = .ok (get result)
    | none => get result = get initial := by
  induction entries generalizing initial with
  | nil =>
    cases h
    rfl
  | cons entry rest ih =>
    obtain ⟨key, v⟩ := entry
    rw [List.foldlM_cons] at h
    obtain ⟨parts, hparts, hrest⟩ := bind_eq_ok_iff.mp h
    obtain ⟨hkey, hnodup⟩ := List.nodup_cons.mp hnodup
    have hlater := ih hnodup hrest
    obtain ⟨rfl, hread⟩ | ⟨hne, hkept⟩ := hpart hparts
    · -- the part is not set again
      have hnone : rest.lookup key = none := by
        refine List.lookup_eq_none_iff.mpr fun other ho => ?_
        have hne : key ≠ other.1 := fun heq => hkey (List.mem_map.mpr ⟨other, ho, heq.symm⟩)
        simpa using hne
      rw [hnone] at hlater
      rw [List.lookup_cons_self]
      dsimp only at *
      rwa [hlater]
    · rw [List.lookup_cons, beq_false_of_ne (Ne.symm hne)]
      dsimp only
      split at hlater
      · next w hw =>
        rw [hw]
        exact hlater
      · next hnone =>
        rw [hnone]
        exact hlater.trans hkept

theorem SetsPart.of_toRecord (hnames : (fields.map (·.1)).Nodup) (hordered : v.IsOrdered)
    (h : v.toRecord fields initial = .ok (result, missing)) :
    match (v.named (fields.map (·.1))).lookup name with
    | some w => read w = .ok (get result)
    | none => get result = get initial :=
  hpart.of_foldlM (nodup_named hnames hordered) (foldlM_of_toRecord hnames h)

end Parts
end Setting
end AccessRules
