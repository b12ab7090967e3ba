import AccessRules.Yaml.Scalar
import AccessRules.Yaml.Text

/-! YAML texts with one document of block and flow collections and of plain and quoted scalars.
Anchors, tags, directives, block scalars and explicit keys are refused. -/
namespace AccessRules.Yaml

inductive Node where
  | plain (s : String)
  | quoted (s : String)
  | list (items : List Node)
  | mapping (entries : List (Node × Node))
  deriving Repr

def Node.empty : Node := .plain ""

def scalar? (bracketed : Bool) (indent : Int) (place : Cursor) : Option (Node × Cursor) :=
  match place.rest with
  | '"' :: rest => (doubleQuoted .none rest).map fun (s, rest) =>
    (.quoted (String.ofList s), (place.moveTo rest).allowKey false)
  | '\'' :: rest => (singleQuoted .none rest).map fun (s, rest) =>
    (.quoted (String.ofList s), (place.moveTo rest).allowKey false)
  | cs =>
    if plainFirst bracketed cs then
      match plainFrom bracketed indent .none place.column cs with
      | .more s rest => some (.plain (String.ofList s), (place.moveTo rest).allowKey false)
      | _ => none
    else none

/-- The place behind a colon that makes a key of what began at `start` and ends here. The key has
to stand on one line. -/
def colon? (bracketed : Bool) (start ending : Cursor) : Option Cursor :=
  let place := ending.skip bracketed
  match place.rest with
  | ':' :: rest =>
    if place.line = start.line ∧ (bracketed ∨ blankFirst rest) then
      some (place.next.allowKey false)
    else none
  | _ => none

def closesWith (close : Char) (place : Cursor) : Bool := place.rest.head? = some close

mutual

def flowNode (indent : Int) : Nat → Cursor → Option (Node × Cursor)
  | 0, _ => none
  | fuel + 1, place =>
    match place.rest with
    | '[' :: _ => do
      let (items, place) ← flowParts indent ']' fuel true (place.next.allowKey true)
      pure (.list (items.map fun
        | (item, none) => item
        | (key, some value) => .mapping [(key, value)]), place)
    | '\x7b' :: _ => do
      let (entries, place) ← flowParts indent '\x7d' fuel true (place.next.allowKey true)
      pure (.mapping (entries.map fun (key, value) => (key, value.getD .empty)), place)
    | _ => scalar? true indent place

def flowParts (indent : Int) (close : Char) : Nat → Bool → Cursor →
    Option (List (Node × Option Node) × Cursor)
  | 0, _, _ => none
  | fuel + 1, first, place => do
    let place := place.skip true
    if closesWith close place then pure ([], place.next.allowKey false)
    else
      let place ← if first then some place
        else if closesWith ',' place then some ((place.next.allowKey true).skip true)
        else none
      if closesWith close place then pure ([], place.next.allowKey false)
      else
        let (node, ending) ← flowNode indent fuel place
        let (value, ending) ← match colon? true place ending with
          | none => pure (none, ending)
          | some behind =>
            let behind := behind.skip true
            if closesWith ',' behind || closesWith close behind then pure (some .empty, behind)
            else do
              let (value, ending) ← flowNode indent fuel behind
              pure (some value, ending)
        let (parts, ending) ← flowParts indent close fuel false ending
        pure ((node, value) :: parts, ending)

end

def dashFirst (place : Cursor) : Bool :=
  match place.rest with
  | '-' :: rest => blankFirst rest
  | _ => false

def leaf? (fuel : Nat) (indent : Int) (place : Cursor) : Option (Node × Cursor) :=
  match place.rest with
  | '[' :: _ => flowNode (indent + 1) fuel place
  | '\x7b' :: _ => flowNode (indent + 1) fuel place
  | _ => scalar? false (indent + 1) place

mutual

/-- The node at or after a place inside a collection at column `indent`. It has to stand to the
right of that column, but for the list that is the value of a key. -/
def blockNode (indent : Int) (listAllowed : Bool) : Nat → Cursor → Option (Node × Cursor)
  | 0, _ => none
  | fuel + 1, place => do
    let place := place.skip false
    let column : Int := place.column
    if place.atEnd ∨ column < indent then pure (.empty, place)
    else if column = indent ∧ ¬ (listAllowed ∧ dashFirst place) then pure (.empty, place)
    else if dashFirst place then
      if place.keyAllowed then do
        let (items, ending) ← blockItems fuel place
        pure (.list items, ending)
      else none
    else
      let (node, ending) ← leaf? fuel indent place
      match colon? false place ending with
      | none => pure (node, ending)
      | some behind =>
        if place.keyAllowed then do
          let (entries, ending) ← blockEntries place.column node fuel behind
          pure (.mapping entries, ending)
        else none

def blockItems : Nat → Cursor → Option (List Node × Cursor)
  | 0, _ => none
  | fuel + 1, place => do
    let (item, ending) ← blockNode place.column false fuel (place.next.allowKey true)
    let next := ending.skip false
    if next.atEnd ∨ next.column < place.column then pure ([item], next)
    else if next.column ≠ place.column then none
    else if dashFirst next then do
      let (items, ending) ← blockItems fuel next
      pure (item :: items, ending)
    else pure ([item], next)

def blockEntries (column : Nat) (key : Node) : Nat → Cursor → Option (List (Node × Node) × Cursor)
  | 0, _ => none
  | fuel + 1, place => do
    let (value, ending) ← blockNode column true fuel place
    let next := ending.skip false
    if next.atEnd ∨ next.column < column then pure ([(key, value)], next)
    else if next.column ≠ column ∨ dashFirst next ∨ !next.keyAllowed then none
    else do
      let (nextKey, ending) ← leaf? fuel column next
      let behind ← colon? false next ending
      let (entries, ending) ← blockEntries column nextKey fuel behind
      pure ((key, value) :: entries, ending)

end

def isPrintable (c : Char) : Bool :=
  let n := c.toNat
  n = 0x09 || n = 0x0a || (0x20 ≤ n && n ≤ 0x7e) || n = 0x85 ||
    (0xa0 ≤ n && n ≤ 0xfffd && n ≠ 0xfeff) || 0x10000 ≤ n

def unifyBreaks : List Char → List Char
  | '\r' :: '\n' :: rest => '\n' :: unifyBreaks rest
  | '\r' :: rest => '\n' :: unifyBreaks rest
  | c :: rest => c :: unifyBreaks rest
  | [] => []

def dropMark : List Char → List Char
  | '\ufeff' :: rest => rest
  | cs => cs

/-- Whether nothing but a marker at most follows a document. -/
def ends (place : Cursor) : Bool :=
  let place := place.skip false
  place.rest.isEmpty ||
    (place.column = 0 && markerFirst '.' place.rest && ((place.advance 3).skip false).rest.isEmpty)

/-- Reads the document of a text. Without any it is an empty mapping. -/
def readNode (s : String) : Option Node := do
  let cs := unifyBreaks (dropMark s.toList)
  let place := (Cursor.start cs).skip false
  if !cs.all isPrintable then none
  else if place.rest.isEmpty then pure (.mapping [])
  else
    let marked := place.column = 0 && markerFirst '-' place.rest
    let place := if marked then (place.advance 3).allowKey false else place
    let (node, ending) ← blockNode (-1) false (4 * cs.length + 8) place
    if ends ending then pure node else none

/-- Keys are scalars, and their text counts whatever their kind. -/
def Node.key? : Node → Option String
  | .plain s => some s
  | .quoted s => some s
  | _ => none

mutual

/-- Of several values of a key the last counts. -/
def Node.setting? : Node → Option Setting
  | .plain s => some (plainSetting s)
  | .quoted s => some (.text s)
  | .list items => (Node.settings? items).map .list
  | .mapping entries => (Node.entries? entries).map fun all => .table (KeyMap.ofList all)

def Node.settings? : List Node → Option (List Setting)
  | [] => some []
  | item :: items => do
    let first ← item.setting?
    let rest ← Node.settings? items
    pure (first :: rest)

def Node.entries? : List (Node × Node) → Option (List (String × Setting))
  | [] => some []
  | (key, value) :: rest => do
    let name ← key.key?
    let v ← value.setting?
    let others ← Node.entries? rest
    pure ((name, v) :: others)

end

def parse (s : String) : Option Setting := (readNode s).bind Node.setting?

end AccessRules.Yaml
