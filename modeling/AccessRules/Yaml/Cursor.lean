/-! Places in a YAML text, and the blanks, comments and line ends between its tokens. -/
namespace AccessRules.Yaml

/-- A place in a text, with what is left from there on. -/
structure Cursor where
  rest : List Char
  line : Nat
  column : Nat
  /-- Whether a key may begin here: only at the start of a line or behind an indicator. -/
  keyAllowed : Bool
  deriving Repr

def isBreak (c : Char) : Bool := c = '\n'

def isBlank (c : Char) : Bool := c = ' ' || c = '\t'

def blankFirst : List Char → Bool
  | [] => true
  | c :: _ => isBlank c || isBreak c

def markerFirst (mark : Char) : List Char → Bool
  | a :: b :: c :: rest => a = mark && b = mark && c = mark && blankFirst rest
  | _ => false

def documentMarkerFirst (cs : List Char) : Bool := markerFirst '-' cs || markerFirst '.' cs

namespace Cursor

def start (text : List Char) : Cursor := ⟨text, 0, 0, true⟩

def next (place : Cursor) : Cursor :=
  match place.rest with
  | [] => place
  | c :: rest =>
    if isBreak c then { place with rest, line := place.line + 1, column := 0 }
    else { place with rest, column := place.column + 1 }

def advance : Nat → Cursor → Cursor
  | 0, place => place
  | n + 1, place => advance n place.next

def moveTo (place : Cursor) (rest : List Char) : Cursor :=
  place.advance (place.rest.length - rest.length)

def allowKey (place : Cursor) (allowed : Bool) : Cursor := { place with keyAllowed := allowed }

def atEnd (place : Cursor) : Bool :=
  place.rest.isEmpty || (place.column = 0 && documentMarkerFirst place.rest)

private def skipFrom (bracketed : Bool) : Bool → List Char → Cursor → Cursor
  | _, [], place => place
  | comment, c :: cs, place =>
    if isBreak c then
      skipFrom bracketed false cs (place.next.allowKey (!bracketed || place.keyAllowed))
    else if comment || c = '#' then skipFrom bracketed true cs place.next
    else if c = ' ' || (c = '\t' && (bracketed || !place.keyAllowed)) then
      skipFrom bracketed false cs place.next
    else place

/-- Moves over blanks, comments and line ends. Outside brackets a line end allows a key, and tabs
count as blanks only where no key is allowed. -/
def skip (bracketed : Bool) (place : Cursor) : Cursor :=
  skipFrom bracketed false place.rest place

end Cursor
end AccessRules.Yaml
