import AccessRules.Json
import AccessRules.Double.Shortest
import AccessRules.Text.Hex

/-! The text of JSON values, on one line or with two blanks of indentation for each level. -/
namespace AccessRules.Json

def escape (c : Char) : List Char :=
  match c with
  | '"' => ['\\', '"']
  | '\\' => ['\\', '\\']
  | '\x08' => ['\\', 'b']
  | '\x0c' => ['\\', 'f']
  | '\n' => ['\\', 'n']
  | '\r' => ['\\', 'r']
  | '\t' => ['\\', 't']
  | _ =>
    if c.toNat < 32 then
      ['\\', 'u', '0', '0', Text.Hex.digit (c.toNat / 16), Text.Hex.digit (c.toNat % 16)]
    else [c]

def quote (s : String) : String := "\"" ++ String.ofList (s.toList.flatMap escape) ++ "\""

/-- Doubles are written positionally from 0.00001 up to sixteen digits before the point, and an
integral one with a zero behind the point. -/
def doubleLayout : Double.Layout := ⟨fun point => -5 < point ∧ point ≤ 16, ".0"⟩

/-- A value without parts; there is no text for numbers that are not finite. -/
def scalarText : Json → String
  | .bool b => if b then "true" else "false"
  | .integer n => toString n
  | .double x => if x.isFinite then x.render doubleLayout else "null"
  | .text s => quote s
  | _ => "null"

mutual

def compact : Json → String
  | .array items => "[" ++ ",".intercalate (compactItems items) ++ "]"
  | .object fields => "\x7b" ++ ",".intercalate (compactFields fields) ++ "\x7d"
  | scalar => scalarText scalar

def compactItems : List Json → List String
  | [] => []
  | v :: vs => v.compact :: compactItems vs

def compactFields : List (String × Json) → List String
  | [] => []
  | (key, v) :: rest => (quote key ++ ":" ++ v.compact) :: compactFields rest

end

private def newline (level : Nat) : String := "\n" ++ String.ofList (List.replicate (2 * level) ' ')

private def block (level : Nat) (left right : String) (parts : List String) : String :=
  if parts.isEmpty then left ++ right
  else left ++ ",".intercalate (parts.map (newline (level + 1) ++ ·)) ++ newline level ++ right

mutual

def indented (level : Nat) : Json → String
  | .array items => block level "[" "]" (indentedItems (level + 1) items)
  | .object fields => block level "\x7b" "\x7d" (indentedFields (level + 1) fields)
  | scalar => scalarText scalar

def indentedItems (level : Nat) : List Json → List String
  | [] => []
  | v :: vs => v.indented level :: indentedItems level vs

def indentedFields (level : Nat) : List (String × Json) → List String
  | [] => []
  | (key, v) :: rest => (quote key ++ ": " ++ v.indented level) :: indentedFields level rest

end

def pretty (v : Json) : String := v.indented 0

end AccessRules.Json
