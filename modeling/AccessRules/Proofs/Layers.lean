import AccessRules.Proofs.Places

/-! What a tree says below a head, in two layers. The nested tree at the head itself comes first,
because its key is a prefix of all others with this head; what dotted keys say is merged onto it. -/
namespace AccessRules

theorem append_lt_append {front first second : String} (h : first < second) :
    front ++ first < front ++ second := by
  rw [String.lt_iff, String.toList_append, String.toList_append]
  exact List.append_left_lt (String.lt_iff.mp h)

theorem lt_of_append_lt_append {front first second : String}
    (h : front ++ first < front ++ second) : first < second := by
  by_contra hnot
  by_cases hlt : second < first
  · exact String.lt_asymm h (append_lt_append hlt)
  · have heq := String.le_antisymm (String.not_lt.mp hnot) (String.not_lt.mp hlt)
    rw [heq] at h
    exact String.lt_irrefl _ h

theorem head_lt_of_splitKey {key head tail : String} (h : splitKey key = some (head, tail)) :
    head < key := by
  rw [(splitKey_eq_some_iff.mp h).1, String.append_assoc]
  have hdot : "" < "." ++ tail := by
    rw [String.lt_iff, String.toList_append]
    exact List.nil_lt_cons '.' tail.toList
  have hlt : head ++ "" < head ++ ("." ++ tail) := append_lt_append hdot
  rwa [String.append_empty] at hlt

def tailAt (head key : String) : Option String :=
  (splitKey key).bind fun parts => if parts.1 = head then some parts.2 else none

@[simp] theorem tailAt_eq_some_iff {head key tail : String} :
    tailAt head key = some tail ↔ splitKey key = some (head, tail) := by
  unfold tailAt
  rw [Option.bind_eq_some_iff]
  constructor
  · rintro ⟨⟨first, rest⟩, hs, h⟩
    split at h
    · next heq =>
      cases heq
      cases h
      exact hs
    · cases h
  · intro hs
    exact ⟨_, hs, if_pos rfl⟩

namespace Tree
variable {tree : Tree} {head key tail : String} {c : Condition}

/-- What dotted keys say below a head, by the rest of the key. -/
def dotted (tree : Tree) (head : String) : Tree :=
  tree.filterMap fun entry => (tailAt head entry.1).map (·, entry.2)

/-- The nested tree that stands at a head itself. -/
def nestedAt (tree : Tree) (head : String) : Option Condition :=
  if splitKey head = none then (tree.lookup head).filter Condition.isNested else none

theorem mem_dotted : (tail, c) ∈ tree.dotted head ↔
    ∃ key, splitKey key = some (head, tail) ∧ (key, c) ∈ tree := by
  simp only [dotted, List.mem_filterMap, Option.map_eq_some_iff, tailAt_eq_some_iff]
  constructor
  · rintro ⟨⟨key, d⟩, hmem, rest, hs, heq⟩
    cases heq
    exact ⟨key, hs, hmem⟩
  · rintro ⟨key, hs, hmem⟩
    exact ⟨_, hmem, tail, hs, rfl⟩

theorem sorted_dotted (h : KeyMap.Sorted tree) (head : String) :
    KeyMap.Sorted (tree.dotted head) := by
  refine List.Pairwise.filterMap _ (fun a a' hlt b hb b' hb' => ?_) h
  obtain ⟨tail, hs, rfl⟩ := Option.map_eq_some_iff.mp hb
  obtain ⟨tail', hs', rfl⟩ := Option.map_eq_some_iff.mp hb'
  have hkey := (splitKey_eq_some_iff.mp (tailAt_eq_some_iff.mp hs)).1
  have hkey' := (splitKey_eq_some_iff.mp (tailAt_eq_some_iff.mp hs')).1
  rw [hkey, hkey'] at hlt
  exact lt_of_append_lt_append hlt

theorem lookup_dotted (hkey : splitKey key = some (head, tail)) :
    (tree.dotted head).lookup tail = tree.lookup key := by
  induction tree with
  | nil => rfl
  | cons entry rest ih =>
    obtain ⟨k, d⟩ := entry
    rw [dotted] at *
    cases hs : tailAt head k with
    | none =>
      have hne : key ≠ k := by
        rintro rfl
        rw [tailAt_eq_some_iff.mpr hkey] at hs
        cases hs
      rw [List.filterMap_cons_none (by rw [hs]; rfl), List.lookup_cons, beq_false_of_ne hne]
      exact ih
    | some other =>
      rw [List.filterMap_cons_some (by rw [hs]; rfl), List.lookup_cons, List.lookup_cons, ih]
      have hk := (splitKey_eq_some_iff.mp (tailAt_eq_some_iff.mp hs)).1
      rw [(splitKey_eq_some_iff.mp hkey).1, hk]
      by_cases heq : tail = other
      · subst heq
        simp
      · have hne : head ++ "." ++ tail ≠ head ++ "." ++ other := by
          simpa using heq
        rw [beq_false_of_ne heq, beq_false_of_ne hne]

theorem nestedAt_of_lt (h : ∀ entry ∈ tree, head < entry.1) : tree.nestedAt head = none := by
  rw [nestedAt, KeyMap.lookup_eq_none_of_lt h]
  split <;> rfl

theorem nestedAt_cons_of_ne (h : splitKey head = none → key ≠ head) :
    nestedAt ((key, c) :: tree) head = tree.nestedAt head := by
  unfold nestedAt
  split
  · next hs => rw [List.lookup_cons, beq_false_of_ne (h hs).symm]
  · rfl

theorem filterMap_contribution (h : KeyMap.Sorted tree) (head : String) :
    tree.filterMap (contribution head) =
      (tree.nestedAt head).toList ++ (tree.dotted head).map fun entry => .nested [entry] := by
  induction tree with
  | nil => simp [nestedAt, dotted]
  | cons entry rest ih =>
    obtain ⟨key, c⟩ := entry
    obtain ⟨hfirst, hrest⟩ := List.pairwise_cons.mp h
    rw [List.filterMap_cons, ih hrest]
    unfold contribution
    cases hs : splitKey key with
    | some parts =>
      obtain ⟨first, tail⟩ := parts
      by_cases hf : first = head
      · subst hf
        have hdotted : dotted ((key, c) :: rest) first = (tail, c) :: dotted rest first := by
          simp [dotted, tailAt_eq_some_iff.mpr hs]
        -- the head stands before all keys that it divides, so it is not to come any more
        have hlt := head_lt_of_splitKey hs
        have hrestAt := nestedAt_of_lt fun e he => String.lt_trans hlt (hfirst e he)
        rw [nestedAt_cons_of_ne fun _ => (String.ne_of_lt hlt).symm, hrestAt, hdotted]
        simp
      · have hdotted : dotted ((key, c) :: rest) head = dotted rest head := by
          simp [dotted, tailAt, hs, hf]
        rw [nestedAt_cons_of_ne (fun hhead heq => by simp [← heq, hs] at hhead), hdotted]
        simp [hf]
    | none =>
      have hdotted : dotted ((key, c) :: rest) head = dotted rest head := by
        simp [dotted, tailAt, hs]
      rw [hdotted]
      by_cases hk : key = head
      · subst hk
        rw [nestedAt_of_lt hfirst]
        cases hc : c.isNested <;> simp [nestedAt, hs, hc, Option.filter]
      · rw [nestedAt_cons_of_ne fun _ => hk]
        simp [hk]

theorem mergeInto_singletons {entries : Tree} (h : KeyMap.Sorted entries) (hne : entries ≠ [])
    {present : Option Condition} (hpresent : ∀ c ∈ present, c.isNested = true) :
    mergeInto present (entries.map fun entry => .nested [entry]) =
      some ((Condition.nested entries).mergeOnto present) := by
  have honto : ∀ (entries below : Tree),
      mergeInto (some (.nested below)) (entries.map fun entry => .nested [entry]) =
        some (.nested (mergeEntries entries below)) := by
    intro entries
    induction entries with
    | nil => exact fun _ => rfl
    | cons entry rest ih => exact fun below => ih _
  cases present with
  | none =>
    obtain ⟨entry, rest, rfl⟩ := List.exists_cons_of_ne_nil hne
    have hmerged : mergeEntries rest [entry] = entry :: rest := by
      conv_lhs => rw [← mergeEntries_nil (List.pairwise_singleton _ entry)]
      exact mergeEntries_nil h
    rw [Condition.mergeOnto_none, ← hmerged]
    conv_lhs => rw [hmerged]
    exact honto rest [entry]
  | some c =>
    cases c with
    | nested below => exact honto entries below
    | _ => exact absurd (hpresent _ rfl) Bool.false_ne_true

/-- Below a head stands what dotted keys say, merged onto the nested tree at the head. -/
theorem under_eq (h : KeyMap.Sorted tree) (head : String) :
    tree.under head =
      if tree.dotted head = [] then tree.nestedAt head
      else some ((Condition.nested (tree.dotted head)).mergeOnto (tree.nestedAt head)) := by
  have hat : mergeInto none (tree.nestedAt head).toList = tree.nestedAt head := by
    cases tree.nestedAt head with
    | none => rfl
    | some c => exact congrArg some c.mergeOnto_none
  have hnested : ∀ c ∈ tree.nestedAt head, c.isNested = true := by
    intro c hc
    unfold nestedAt at hc
    split at hc
    · exact (Option.filter_eq_some_iff.mp hc).2
    · cases hc
  rw [under, filterMap_contribution h, mergeInto, List.foldl_append]
  change mergeInto (mergeInto none (tree.nestedAt head).toList) _ = _
  rw [hat]
  split
  · next hnil => rw [hnil]; rfl
  · next hne => exact mergeInto_singletons (sorted_dotted h head) hne hnested

end Tree

structure Segment where
  field : String
  divided : Bool
deriving DecidableEq, Repr

/-- The segments from a tree to what it says: several for a key with dots, and those of the keys
inside a nested tree behind those of its own key. -/
abbrev Route := List Segment

namespace Route
variable {route route' : Route} {segment segment' : Segment}

def path (route : Route) : List String := route.map Segment.field

def ofPath : List String → Route
  | [] => []
  | [field] => [⟨field, false⟩]
  | field :: rest => ⟨field, true⟩ :: ofPath rest

/-- What stands at the first route replaces what stands at the second, of the same path: where they
part for the last time, the key of the first one goes on. -/
inductive Outlasts : Route → Route → Prop
  | here {field route} : Outlasts (⟨field, true⟩ :: route) (⟨field, false⟩ :: route)
  | deeper {field divided divided' route route'} : Outlasts route route' →
    Outlasts (⟨field, divided⟩ :: route) (⟨field, divided'⟩ :: route')

theorem Outlasts.irrefl (route : Route) : ¬Outlasts route route := by
  intro h
  induction route with
  | nil => cases h
  | cons segment rest ih =>
    cases h with
    | deeper h => exact ih h

theorem Outlasts.of_cons (h : Outlasts (segment :: route) (segment' :: route')) :
    route = route' ∨ Outlasts route route' := by
  cases h with
  | here => exact .inl rfl
  | deeper h => exact .inr h

end Route

def keyRoute (key : String) : Route := .ofPath (keyPath key)

theorem Tree.leads_keyRoute : Tree.Leads keyRoute fun divided field => ⟨field, divided⟩ := by
  constructor
  · intro key hs
    rw [keyRoute, keyPath_undivided hs]
    rfl
  · intro key head tail hs
    rw [keyRoute, keyPath_split hs, keyRoute]
    cases hp : keyPath tail with
    | nil => exact absurd hp (keyPath_ne_nil tail)
    | cons field rest => rfl

theorem keyRoute_ne_nil (key : String) : keyRoute key ≠ [] := by
  cases hs : splitKey key with
  | none => simp [Tree.leads_keyRoute.undivided hs]
  | some parts =>
    obtain ⟨head, tail⟩ := parts
    simp [Tree.leads_keyRoute.divided hs]

/-- What a condition says, by the routes to it: a condition, or none at a nested tree. -/
def Condition.statements (c : Condition) : List (Route × Option Condition) := c.placesBy keyRoute

def Tree.statements (tree : Tree) : List (Route × Option Condition) := Tree.placesBy keyRoute tree

end AccessRules
