import AccessRules.Text.Number
import AccessRules.Value

/-! Dotted paths into documents. Arrays are entered by position where a segment is a number and
through all their documents otherwise. -/
namespace AccessRules.Path

/-- The pieces of a text between its dots; there is always at least one. -/
def splitDots : List Char → List (List Char)
  | [] => [[]]
  | c :: rest =>
    if c = '.' then [] :: splitDots rest
    else match splitDots rest with
      | [] => [[c]]
      | piece :: pieces => (c :: piece) :: pieces

def segments (path : String) : List String := (splitDots path.toList).map String.ofList

/-- The values that segments reach from a value; `none` marks a field that is missing. -/
def descend : List String → Value → List (Option Value)
  | [], value => [some value]
  | segment :: rest, .document doc =>
    match doc.lookup segment with
    | some value => descend rest value
    | none => [none]
  | segment :: rest, .array items =>
    match Text.position? segment with
    | some index =>
      match items[index]? with
      | some item => descend rest item
      | none => [none]
    | none => items.flatMap fun
      | .document doc =>
        match doc.lookup segment with
        | some value => descend rest value
        | none => [none]
      | _ => []
  | _ :: _, _ => [none]

/-- The values that a path reaches in an entity; a path that reaches nothing is missing. -/
def leaves (entity : Document) (path : String) : List (Option Value) :=
  match descend (segments path) (.document entity) with
  | [] => [none]
  | found => found

def spread : Option Value → List (Option Value)
  | some (.array items) => some (.array items) :: items.map some
  | leaf => [leaf]

def expanded (leaves : List (Option Value)) : List (Option Value) := leaves.flatMap spread

def documents (leaves : List (Option Value)) : List Document :=
  (expanded leaves).filterMap fun
    | some (.document doc) => some doc
    | _ => none

def elements (leaves : List (Option Value)) : List Value :=
  leaves.flatMap fun
    | some (.array items) => items
    | _ => []

end AccessRules.Path
