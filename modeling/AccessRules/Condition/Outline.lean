import AccessRules.Condition.Split
import AccessRules.Filter.Path

/-! The outline of a condition tree: its splits all the way down. Splitting uses up a key segment
for every field it descends into, so the number of segments bounds the outline. -/
namespace AccessRules

inductive Outline where
  | mk (direct : List (String × Condition)) (heads : List (String × Outline))
  deriving Repr

namespace Outline

instance : Inhabited Outline := ⟨.mk [] []⟩

def direct : Outline → List (String × Condition)
  | mk direct _ => direct

def heads : Outline → List (String × Outline)
  | mk _ heads => heads

def isEmpty (o : Outline) : Bool := o.direct.isEmpty && o.heads.isEmpty

end Outline

def segmentCount (key : String) : Nat := (Path.splitDots key.toList).length

mutual

def Condition.weight : Condition → Nat
  | .nested tree => Tree.weight tree
  | _ => 0

/-- The number of key segments in a tree, those of nested trees included. -/
def Tree.weight : List (String × Condition) → Nat
  | [] => 0
  | (key, condition) :: rest => segmentCount key + condition.weight + Tree.weight rest

end

def headWeight : List (String × Tree) → Nat
  | [] => 0
  | (_, below) :: rest => 1 + Tree.weight below + headWeight rest

theorem Path.splitDots_ne_nil (cs : List Char) : Path.splitDots cs ≠ [] := by
  cases cs with
  | nil => simp [Path.splitDots]
  | cons c rest =>
    unfold Path.splitDots
    split
    · simp
    · split <;> simp

theorem segmentCount_pos (key : String) : 0 < segmentCount key :=
  List.length_pos_iff.mpr (Path.splitDots_ne_nil _)

theorem Path.length_splitDots (cs tail : List Char) (dot : Char)
    (h : cs.dropWhile (· ≠ '.') = dot :: tail) :
    (Path.splitDots cs).length = 1 + (Path.splitDots tail).length := by
  induction cs with
  | nil => simp at h
  | cons c rest ih =>
    by_cases hc : c = '.'
    · subst hc
      simp at h
      simp [Path.splitDots, h.2, Nat.add_comm]
    · simp [hc] at h
      have := ih (by simpa using h)
      rw [Path.splitDots, if_neg hc]
      split
      · next hn => exact absurd hn (Path.splitDots_ne_nil rest)
      · next piece pieces hp => simpa [hp] using this

theorem splitKey_segments {key head tail : String} (h : splitKey key = some (head, tail)) :
    segmentCount key = 1 + segmentCount tail := by
  unfold splitKey at h
  split at h
  · simp at h
  · split at h
    · next d t hs =>
      simp only [Option.some.injEq, Prod.mk.injEq] at h
      rw [← h.2]
      simpa [segmentCount] using Path.length_splitDots _ _ _ hs
    · simp at h

theorem Tree.weight_alter (f : Option Condition → Condition) (bound : Nat) (key : String)
    (hf : ∀ present, (f present).weight ≤ bound + (present.map Condition.weight).getD 0)
    (tree : Tree) :
    Tree.weight (KeyMap.alter f key tree) ≤ segmentCount key + bound + Tree.weight tree := by
  induction tree with
  | nil =>
    have := hf none
    simp [KeyMap.alter, Tree.weight] at *
    omega
  | cons entry entries ih =>
    obtain ⟨k, v⟩ := entry
    unfold KeyMap.alter
    split
    · have := hf (some v)
      simp [Tree.weight] at *
      omega
    · split
      · have := hf none
        simp [Tree.weight] at *
        omega
      · simp [Tree.weight] at *
        omega

mutual

theorem Condition.weight_mergeOnto (added : Condition) (present : Option Condition) :
    (added.mergeOnto present).weight ≤ added.weight + (present.map Condition.weight).getD 0 := by
  cases added with
  | nested tree =>
    cases present with
    | none => simp [Condition.mergeOnto]
    | some p =>
      cases p with
      | nested old =>
        simpa [Condition.mergeOnto, Condition.weight] using Tree.weight_mergeEntries tree old
      | _ => simp [Condition.mergeOnto]
  | _ => simp [Condition.mergeOnto]

theorem Tree.weight_mergeEntries (added : List (String × Condition)) (tree : Tree) :
    Tree.weight (Tree.mergeEntries added tree) ≤ Tree.weight added + Tree.weight tree := by
  match added with
  | [] => simp [Tree.mergeEntries, Tree.weight]
  | (key, c) :: rest =>
    have h1 := Tree.weight_mergeEntries rest (KeyMap.alter c.mergeOnto key tree)
    have h2 := Tree.weight_alter c.mergeOnto c.weight key (Condition.weight_mergeOnto c) tree
    simp only [Tree.mergeEntries, Tree.weight]
    omega

end

theorem headWeight_alter (f : Option Tree → Tree) (below : Tree) (head : String)
    (hf : ∀ present, Tree.weight (f present) ≤ Tree.weight (present.getD []) + Tree.weight below)
    (map : KeyMap Tree) :
    headWeight (KeyMap.alter f head map) ≤ 1 + Tree.weight below + headWeight map := by
  induction map with
  | nil =>
    have := hf none
    simp [KeyMap.alter, headWeight, Tree.weight] at *
    omega
  | cons entry entries ih =>
    obtain ⟨k, v⟩ := entry
    unfold KeyMap.alter
    split
    · have := hf (some v)
      simp [headWeight] at *
      omega
    · split
      · have := hf none
        simp [headWeight, Tree.weight] at *
        omega
      · simp [headWeight] at *
        omega

theorem Split.headWeight_addBelow (split : Split) (head : String) (below : Tree) :
    headWeight (split.addBelow head below).heads ≤
      1 + Tree.weight below + headWeight split.heads := by
  refine headWeight_alter _ below head (fun present => ?_) _
  simpa [Tree.mergeAll, Nat.add_comm] using Tree.weight_mergeEntries below (present.getD [])

theorem Split.headWeight_add (split : Split) (key : String) (condition : Condition) :
    headWeight (split.add key condition).heads ≤
      segmentCount key + condition.weight + headWeight split.heads := by
  unfold Split.add
  split
  · next head tail h =>
    have := split.headWeight_addBelow head [(tail, condition)]
    have hs := splitKey_segments h
    simp only [Tree.weight] at this
    omega
  · split
    · next below =>
      have := split.headWeight_addBelow key below
      have := segmentCount_pos key
      simp only [Condition.weight]
      omega
    · simp

theorem Tree.headWeight_split (tree : Tree) : headWeight tree.split.heads ≤ Tree.weight tree := by
  have key : ∀ (entries : List (String × Condition)) (split : Split),
      headWeight (entries.foldl (fun split entry => split.add entry.1 entry.2) split).heads ≤
        Tree.weight entries + headWeight split.heads := by
    intro entries
    induction entries with
    | nil => simp [Tree.weight]
    | cons entry rest ih =>
      intro split
      have := ih (split.add entry.1 entry.2)
      have := split.headWeight_add entry.1 entry.2
      simp only [List.foldl_cons, Tree.weight]
      omega
  simpa [headWeight, Tree.split] using key tree ⟨[], []⟩

theorem weight_lt_of_mem_headWeight {map : List (String × Tree)} {head : String} {below : Tree}
    (h : (head, below) ∈ map) : Tree.weight below < headWeight map := by
  induction map with
  | nil => simp at h
  | cons entry rest ih =>
    rcases List.mem_cons.mp h with h | h
    · subst h
      simp only [headWeight]
      omega
    · have := ih h
      simp only [headWeight]
      omega

theorem Tree.weight_lt_of_mem_split {tree : Tree} {head : String} {below : Tree}
    (h : (head, below) ∈ tree.split.heads) : Tree.weight below < Tree.weight tree :=
  Nat.lt_of_lt_of_le (weight_lt_of_mem_headWeight h) tree.headWeight_split

/-- Splits a tree, and what lies below its heads in turn. -/
def Tree.outline (tree : Tree) : Outline :=
  .mk tree.split.direct (tree.split.heads.attach.map fun entry =>
    (entry.1.1, Tree.outline entry.1.2))
termination_by Tree.weight tree
decreasing_by exact Tree.weight_lt_of_mem_split entry.2

theorem Tree.outline_eq (tree : Tree) :
    Tree.outline tree =
      .mk tree.split.direct
        (tree.split.heads.map fun entry => (entry.1, Tree.outline entry.2)) := by
  rw [Tree.outline]
  congr 1
  exact @List.attach_map_val _ _ _ fun entry : String × Tree => (entry.1, Tree.outline entry.2)

end AccessRules
