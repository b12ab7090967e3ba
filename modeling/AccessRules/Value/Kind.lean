import AccessRules.Value

/-! Type codes of values, and the aliases that name them. -/
namespace AccessRules

def Atom.kind : Atom → Int
  | .double _ => 1
  | .text _ => 2
  | .binary _ _ => 5
  | .undefined => 6
  | .objectId _ => 7
  | .bool _ => 8
  | .instant _ => 9
  | .null => 10
  | .pattern _ _ => 11
  | .pointer _ _ => 12
  | .code _ => 13
  | .symbol _ => 14
  | .int32 _ => 16
  | .timestamp _ _ => 17
  | .int64 _ => 18
  | .decimal _ => 19
  | .minKey => -1
  | .maxKey => 127

def Value.kind : Value → Int
  | .atom a => a.kind
  | .document _ => 3
  | .array _ => 4
  | .scopedCode _ _ => 15

def kindNames : List (String × Int) :=
  [("double", 1), ("string", 2), ("object", 3), ("array", 4), ("binData", 5), ("undefined", 6),
    ("objectId", 7), ("bool", 8), ("date", 9), ("null", 10), ("regex", 11), ("dbPointer", 12),
    ("javascript", 13), ("symbol", 14), ("javascriptWithScope", 15), ("int", 16),
    ("timestamp", 17), ("long", 18), ("decimal", 19), ("minKey", -1), ("maxKey", 127)]

/-- The codes that an alias names; `number` names those of all four numeric types. -/
def kindsOfName? (name : String) : Option (List Int) :=
  if name = "number" then some [1, 16, 18, 19] else (kindNames.lookup name).map ([·])

end AccessRules
