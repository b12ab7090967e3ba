import AccessRules.Check

/-! What dotted paths reach. A path without a dot reads one field; what lies below a field is what
the rest of the path reaches in the field's subdocument, or in the only document of its array. -/
namespace AccessRules.Path

theorem splitDots_append {cs : List Char} (ds : List Char) (h : '.' ∉ cs) :
    splitDots (cs ++ '.' :: ds) = cs :: splitDots ds := by
  induction cs with
  | nil => simp [splitDots]
  | cons c rest ih =>
    rw [List.mem_cons, not_or] at h
    rw [List.cons_append, splitDots, if_neg (Ne.symm h.1), ih h.2]

theorem splitDots_of_not_mem {cs : List Char} (h : '.' ∉ cs) : splitDots cs = [cs] := by
  induction cs with
  | nil => rfl
  | cons c rest ih =>
    rw [List.mem_cons, not_or] at h
    rw [splitDots, if_neg (Ne.symm h.1), ih h.2]

theorem segments_ne_nil (path : String) : segments path ≠ [] := by
  simpa [segments] using splitDots_ne_nil path.toList

theorem segments_field {key : String} (h : '.' ∉ key.toList) : segments key = [key] := by
  unfold segments
  rw [splitDots_of_not_mem h]
  simp

theorem segments_below {key : String} (h : '.' ∉ key.toList) (rest : String) :
    segments (key ++ "." ++ rest) = key :: segments rest := by
  have hchars : (key ++ "." ++ rest).toList = key.toList ++ '.' :: rest.toList := by
    simp [String.toList_append]
  unfold segments
  rw [hchars, splitDots_append _ h]
  simp

theorem leaves_eq (entity : Document) (path : String) :
    leaves entity path =
      if descend (segments path) (.document entity) = [] then [none]
      else descend (segments path) (.document entity) := by
  unfold leaves
  split <;> simp_all

theorem leaves_field {key : String} (h : '.' ∉ key.toList) (entity : Document) :
    leaves entity key = [entity.lookup key] := by
  rw [leaves_eq, segments_field h]
  cases hl : entity.lookup key <;> simp [descend, hl]

@[simp] theorem elements_field (value : Option Value) :
    elements [value] =
      match value with
      | some (.array items) => items
      | _ => [] :=
  List.append_nil _

@[simp] theorem leaves_empty (path : String) : leaves [] path = [none] := by
  rw [leaves_eq]
  cases hs : segments path with
  | nil => exact absurd hs (segments_ne_nil path)
  | cons segment rest => simp [descend]

section Below
variable {key : String} (h : '.' ∉ key.toList) (entity : Document) (rest : String)
include h

theorem descend_below :
    descend (segments (key ++ "." ++ rest)) (.document entity) =
      match entity.lookup key with
      | some value => descend (segments rest) value
      | none => [none] := by
  rw [segments_below h]
  rfl

theorem leaves_below_document {doc : Document} (hl : entity.lookup key = some (.document doc)) :
    leaves entity (key ++ "." ++ rest) = leaves doc rest := by
  rw [leaves_eq, leaves_eq, descend_below h, hl]

/-- Unless the path goes on with a position, the only document of an array stands for itself. -/
theorem leaves_below_only {doc : Document}
    (hl : entity.lookup key = some (.array [.document doc]))
    (hp : ∀ segment ∈ (segments rest).head?, Text.position? segment = none) :
    leaves entity (key ++ "." ++ rest) = leaves doc rest := by
  rw [leaves_eq, leaves_eq, descend_below h, hl]
  cases hs : segments rest with
  | nil => exact absurd hs (segments_ne_nil rest)
  | cons segment more =>
    have hnone : Text.position? segment = none := hp segment (by simp [hs])
    simp [descend, hnone]
    rfl

theorem leaves_below_vacant (hv : isVacant (entity.lookup key) = true) :
    leaves entity (key ++ "." ++ rest) = [none] := by
  rw [leaves_eq, descend_below h]
  cases hs : segments rest with
  | nil => exact absurd hs (segments_ne_nil rest)
  | cons segment more =>
    unfold isVacant at hv
    split at hv
    · next hl => simp [hl]
    · next hl => simp [hl, descend]
    · next hl =>
      -- a position leads to no item, and where there is none no item is entered
      cases hposition : Text.position? segment <;> simp [hl, descend, hposition]
    · cases hv

end Below
end AccessRules.Path
