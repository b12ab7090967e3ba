import AccessRules.Value
import AccessRules.Double.Shortest
import AccessRules.Text.Base64

/-! Values as one line of text for messages. Strings stand between quotes as they are, so the text
is for reading by people only. -/
namespace AccessRules

def Atom.display : Atom → String
  | .null => "null"
  | .undefined => "undefined"
  | .minKey => "MinKey"
  | .maxKey => "MaxKey"
  | .bool b => if b then "true" else "false"
  | .int32 n => toString n.toInt
  | .int64 n => toString n.toInt
  | .double x => x.display
  | .text s => "\"" ++ s ++ "\""
  | .symbol s => "Symbol(\"" ++ s ++ "\")"
  | .code s => s
  | .objectId id => "ObjectId(\"" ++ id.toHex ++ "\")"
  | .instant t => "DateTime(\"" ++ t.display ++ "\")"
  | .timestamp time increment =>
    "Timestamp(" ++ toString time.toNat ++ ", " ++ toString increment.toNat ++ ")"
  | .pattern source options => "/" ++ source ++ "/" ++ options
  | .binary subtype bytes =>
    let digits := Nat.toDigits 16 subtype.toNat
    "Binary(0x" ++ String.ofList digits ++ ", " ++ Text.Base64.encode bytes ++ ")"
  | .decimal d => d.toText
  | .pointer collection id => "DbPointer(" ++ collection ++ ", " ++ id.toHex ++ ")"

/-- Fields between braces, with blanks inside unless there is no field. -/
def braced (fields : List String) : String :=
  if fields.isEmpty then "\x7b\x7d" else "\x7b " ++ ", ".intercalate fields ++ " \x7d"

mutual

def Value.display : Value → String
  | .atom a => a.display
  | .array items => "[" ++ ", ".intercalate (displayItems items) ++ "]"
  | .document fields => braced (displayFields fields)
  | .scopedCode source _ => source

def displayItems : List Value → List String
  | [] => []
  | v :: vs => v.display :: displayItems vs

def displayFields : List (String × Value) → List String
  | [] => []
  | (key, v) :: rest => ("\"" ++ key ++ "\": " ++ v.display) :: displayFields rest

end

def Document.display (doc : Document) : String := (Value.document doc).display

end AccessRules
