/-! Maps from strings kept as lists sorted by key, in the order of code points. Changing the value
of a key keeps a map sorted, and changes what is looked up under that key alone. -/
namespace AccessRules

/-- Entries by key, each key once, in increasing order. -/
abbrev KeyMap (α : Type) := List (String × α)

namespace KeyMap
variable {α : Type}

def alter (f : Option α → α) (key : String) : KeyMap α → KeyMap α
  | [] => [(key, f none)]
  | (k, v) :: rest =>
    if key = k then (k, f (some v)) :: rest
    else if key < k then (key, f none) :: (k, v) :: rest
    else (k, v) :: alter f key rest

def insert (key : String) (value : α) (map : KeyMap α) : KeyMap α := alter (fun _ => value) key map

/-- The map that holds for each key its last value. -/
def ofList (entries : List (String × α)) : KeyMap α :=
  entries.foldl (fun map (key, value) => map.insert key value) []

def Sorted (map : KeyMap α) : Prop := map.Pairwise fun a b => a.1 < b.1

theorem mem_of_mem_alter {f : Option α → α} {key : String} {map : KeyMap α} {entry : String × α}
    (h : entry ∈ alter f key map) : entry.1 = key ∨ entry ∈ map := by
  induction map with
  | nil => simp_all [alter]
  | cons first rest ih => grind [alter]

theorem sorted_alter (f : Option α → α) (key : String) {map : KeyMap α} (h : Sorted map) :
    Sorted (alter f key map) := by
  induction map with
  | nil => simp [Sorted, alter]
  | cons first rest ih =>
    obtain ⟨hfirst, hrest⟩ := List.pairwise_cons.mp h
    have := @mem_of_mem_alter α f key rest
    grind [alter, Sorted, List.pairwise_cons]

theorem mem_of_lookup {key : String} {value : α} {map : KeyMap α}
    (h : map.lookup key = some value) : (key, value) ∈ map := by
  obtain ⟨before, after, rfl, -⟩ := List.lookup_eq_some_iff.mp h
  exact List.mem_append_right _ List.mem_cons_self

theorem lookup_eq_none_of_lt {key : String} {map : KeyMap α} (h : ∀ entry ∈ map, key < entry.1) :
    map.lookup key = none :=
  List.lookup_eq_none_iff.mpr (by grind)

theorem lookup_alter (f : Option α → α) (key k : String) {map : KeyMap α} (h : Sorted map) :
    (alter f key map).lookup k = if k = key then some (f (map.lookup key)) else map.lookup k := by
  induction map with
  | nil => by_cases hk : k = key <;> simp [alter, hk, List.lookup_cons, beq_false_of_ne]
  | cons first rest ih =>
    obtain ⟨hfirst, hrest⟩ := List.pairwise_cons.mp h
    have ih := ih hrest
    unfold alter
    split
    · grind
    · split
      · have hnone : ((first.1, first.2) :: rest).lookup key = none :=
          lookup_eq_none_of_lt (by grind)
        grind
      · grind

theorem sorted_ofList (entries : List (String × α)) : Sorted (ofList entries) := by
  have sorted_foldl : ∀ (entries : List (String × α)) (map : KeyMap α), Sorted map →
      Sorted (entries.foldl (fun map (key, value) => map.insert key value) map) := by
    intro entries
    induction entries with
    | nil => exact fun _ h => h
    | cons entry rest ih => exact fun map h => ih _ (sorted_alter _ _ h)
  exact sorted_foldl entries [] List.Pairwise.nil

end KeyMap
end AccessRules
