import AccessRules.Pattern.CharSet
import AccessRules.Setting
import AccessRules.Text.Number

/-! Settings from environment variables. A variable's name is a path of keys, and its value is read
as a truth value, a number, a list, a table or text. -/
namespace AccessRules.Environment

def isBlank (c : Char) : Bool := c ∈ [' ', '\t', '\n', '\r', '\x0c']

def isBracket (c : Char) : Bool := c ∈ ['\x7b', '\x7d', '[', ']', ',']

def isKeyChar (c : Char) : Bool := c.isAlphanum || c = '_' || c = '-'

def skip (cs : List Char) : List Char := cs.dropWhile isBlank

def trim (cs : List Char) : List Char :=
  let blank := fun (c : Char) => Pattern.CharSet.space.mem c
  ((cs.dropWhile blank).reverse.dropWhile blank).reverse

def quoted : List Char → Option (List Char × List Char)
  | '"' :: rest => some ([], rest)
  | '\\' :: 'u' :: a :: b :: c :: d :: rest => do
    let n ← (Text.natural? 16 [a, b, c, d]).filter (·.isValidChar)
    let (s, rest) ← quoted rest
    pure (Char.ofNat n :: s, rest)
  | '\\' :: 'U' :: a :: b :: c :: d :: e :: f :: g :: h :: rest => do
    let n ← (Text.natural? 16 [a, b, c, d, e, f, g, h]).filter (·.isValidChar)
    let (s, rest) ← quoted rest
    pure (Char.ofNat n :: s, rest)
  | '\\' :: c :: rest => do
    let escaped ← match c with
      | '"' => some '"'
      | '\\' => some '\\'
      | 'b' => some '\x08'
      | 'f' => some '\x0c'
      | 'n' => some '\n'
      | 'r' => some '\r'
      | 't' => some '\t'
      | _ => none
    let (s, rest) ← quoted rest
    pure (escaped :: s, rest)
  | c :: rest =>
    if c = '\\' ∨ (c.toNat < 32 ∧ c ≠ '\t') ∨ c = '\x7f' then none
    else (quoted rest).map fun (s, rest) => (c :: s, rest)
  | [] => none

/-- Text without quotes: a decimal if there is a point in it, an integer of 64 bits, or itself. -/
def bare (cs : List Char) : Setting :=
  let s := String.ofList cs
  let decimal := if cs.contains '.' then Text.double? s else none
  match decimal with
  | some x => .double x
  | none =>
    match Text.boundedNat? 10 (1 <<< 64) cs with
    | some n => .integer n
    | none => match Text.boundedInt? 10 64 cs with
      | some n => .integer n
      | none => .text s

def key? (cs : List Char) : Option (String × List Char) :=
  match cs with
  | '"' :: rest => (quoted rest).map fun (s, rest) => (String.ofList s, rest)
  | _ =>
    let name := cs.takeWhile isKeyChar
    if name.isEmpty then none else some (String.ofList name, cs.dropWhile isKeyChar)

mutual

def value? : Nat → List Char → Option (Setting × List Char)
  | 0, _ => none
  | fuel + 1, cs => do
    let (v, rest) ← match skip cs with
      | 't' :: 'r' :: 'u' :: 'e' :: rest => some (.bool true, rest)
      | 'f' :: 'a' :: 'l' :: 's' :: 'e' :: rest => some (.bool false, rest)
      | '\x7b' :: rest => (entries? fuel rest).map fun (entries, rest) =>
        (.table (KeyMap.ofList entries), rest)
      | '[' :: rest => (items? fuel rest).map fun (items, rest) => (.list items, rest)
      | '"' :: rest => (quoted rest).map fun (s, rest) => (.text (String.ofList s), rest)
      | '\'' :: rest => match rest with
        | c :: '\'' :: rest => some (.text c.toString, rest)
        | _ => none
      | body => some (bare (trim (body.takeWhile fun c => !isBracket c)),
        body.dropWhile fun c => !isBracket c)
    pure (v, skip rest)

def items? : Nat → List Char → Option (List Setting × List Char)
  | 0, _ => none
  | _, ']' :: rest => some ([], rest)
  | fuel + 1, cs => do
    let (item, rest) ← value? fuel cs
    match rest with
    | ',' :: rest => do
      let (items, rest) ← items? fuel rest
      pure (item :: items, rest)
    | ']' :: rest => pure ([item], rest)
    | _ => none

def entries? : Nat → List Char → Option (List (String × Setting) × List Char)
  | 0, _ => none
  | _, '\x7d' :: rest => some ([], rest)
  | fuel + 1, cs => do
    let (key, rest) ← key? (skip cs)
    match skip rest with
    | '=' :: rest => do
      let (v, rest) ← value? fuel rest
      match rest with
      | ',' :: rest => do
        let (entries, rest) ← entries? fuel rest
        pure ((key, v) :: entries, rest)
      | '\x7d' :: rest => pure ([(key, v)], rest)
      | _ => none
    | _ => none

end

/-- The setting of a variable's value; what cannot be read is text as it stands. -/
def value (s : String) : Setting :=
  match value? (2 * s.length + 2) s.toList with
  | some (v, []) => v
  | _ => .text s

/-- The pieces of a name between double underscores or points, without regard to case. -/
def splitName : List Char → List (List Char)
  | [] => [[]]
  | '_' :: '_' :: rest => [] :: splitName rest
  | '.' :: rest => [] :: splitName rest
  | c :: rest =>
    match splitName rest with
    | [] => [[c]]
    | piece :: pieces => (c :: piece) :: pieces

def path? (start name : String) : Option (List String) :=
  let cs := (Text.lowercase name).toList
  let wanted := (Text.lowercase start).toList
  if wanted.isPrefixOf cs then
    let pieces := splitName (trim (cs.drop wanted.length))
    if pieces.any List.isEmpty then none else some (pieces.map String.ofList)
  else none

def nest : List String → Setting → Setting
  | [], v => v
  | key :: keys, v => .table [(key, nest keys v)]

/-- The settings of all variables named with the given start, later ones over earlier ones. -/
def settings (start : String) (environment : List (String × String)) : Setting :=
  environment.foldl (fun below (name, v) =>
    match path? start name with
    | some path => below.overlay (nest path (value v))
    | none => below) (.table [])

end AccessRules.Environment
