import AccessRules.Decimal128
import AccessRules.Json
import AccessRules.Text.Base64
import AccessRules.Value.Display

/-! Extended JSON: values of every kind as JSON. Kinds that JSON lacks are objects with a reserved
key. Numbers are read into the narrowest kind that holds them, and written without their kind. -/
namespace AccessRules.ExtendedJson

def number : Json → Option Value
  | .integer n =>
    if -0x80000000 ≤ n ∧ n ≤ 0x7fffffff then some (.int32 (Int32.ofInt n))
    else if -0x8000000000000000 ≤ n ∧ n ≤ 0x7fffffffffffffff then
      some (.int64 (Int64.ofInt n))
    else some (.double (Double.ofInt n))
  | .double x => some (.double x)
  | _ => none

def textOf? : Json → Option String
  | .text s => some s
  | _ => none

def body? (names : List String) : Json → Option (List Json)
  | .object fields =>
    if fields.length = names.length then names.mapM fun name => fields.lookup name else none
  | .array items => if items.length = names.length then some items else none
  | _ => none

def sortOptions (options : String) : String :=
  String.ofList (options.toList.mergeSort fun a b => a ≤ b)

def doubleOf? (s : String) : Option Double :=
  if s = "Infinity" then some (Double.infinity false)
  else if s = "-Infinity" then some (Double.infinity true)
  else if s = "NaN" then some Double.nan
  else Text.double? s

/-- Thirty-two hexadecimal digits, or these with hyphens after the eighth and every fourth up to the
twentieth; the hyphenated form may stand in braces or behind its scheme. -/
def uuidBytes? (s : String) : Option (List UInt8) :=
  let hyphenated? := fun (cs : List Char) =>
    let parts := [(0, 8), (9, 4), (14, 4), (19, 4), (24, 12)].map fun (start, length) =>
      (cs.drop start).take length
    if cs.length = 36 ∧ [8, 13, 18, 23].all fun i => cs[i]? = some '-' then
      Text.Hex.decodeChars parts.flatten
    else none
  let cs := s.toList
  if cs.length = 32 then Text.Hex.decodeChars cs
  else if cs.length = 38 ∧ cs.head? = some '\x7b' ∧ cs.getLast? = some '\x7d' then
    hyphenated? ((cs.drop 1).take 36)
  else if cs.take 9 = "urn:uuid:".toList then hyphenated? (cs.drop 9)
  else hyphenated? cs

def binary? (base64 subtype : String) : Option Atom := do
  let bytes ← Text.Base64.decode base64
  match ← Text.Hex.decode subtype with
  | [kind] => some (.binary kind bytes)
  | _ => none

def word? : Json → Option UInt32
  | .integer n => if 0 ≤ n ∧ n ≤ 0xffffffff then some (UInt32.ofNat n.toNat) else none
  | _ => none

def instant? (body : Json) : Option Instant :=
  match body with
  | .text s => Instant.ofRfc3339? s
  | _ => do
    match ← body? ["$numberLong"] body with
    | [.text n] => (Text.int64? n).map Instant.mk
    | _ => none

def isOne : Json → Bool
  | .integer n => n = 1
  | _ => false

/-- The value that the body under a reserved key spells; for other keys nothing at all. -/
def reserved? (key : String) (body : Json) : Option (Option Atom) :=
  match key with
  | "$oid" => some (textOf? body >>= ObjectId.ofHex? |>.map .objectId)
  | "$symbol" => some (textOf? body |>.map .symbol)
  | "$regularExpression" => some do
    match ← body? ["pattern", "options"] body with
    | [.text source, .text options] => some (.pattern source (sortOptions options))
    | _ => none
  | "$numberInt" => some (textOf? body >>= Text.int32? |>.map .int32)
  | "$numberLong" => some (textOf? body >>= Text.int64? |>.map .int64)
  | "$numberDouble" => some (textOf? body >>= doubleOf? |>.map .double)
  | "$numberDecimal" => some (textOf? body >>= Decimal128.ofText? |>.map .decimal)
  | "$binary" => some do
    match ← body? ["base64", "subType"] body with
    | [.text base64, .text subtype] => binary? base64 subtype
    | _ => none
  | "$uuid" => some (textOf? body >>= uuidBytes? |>.map (.binary 4))
  | "$code" => some (textOf? body |>.map .code)
  | "$timestamp" => some do
    match ← body? ["t", "i"] body with
    | [time, increment] => some (.timestamp (← word? time) (← word? increment))
    | _ => none
  | "$minKey" => some (if isOne body then some .minKey else none)
  | "$maxKey" => some (if isOne body then some .maxKey else none)
  | "$dbPointer" => some do
    match ← body? ["$ref", "$id"] body with
    | [.text collection, id] =>
      match ← body? ["$oid"] id with
      | [.text hex] => (ObjectId.ofHex? hex).map (.pointer collection ·)
      | _ => none
    | _ => none
  | "$date" => some (instant? body |>.map .instant)
  | "$undefined" => some (match body with
    | .bool true => some .undefined
    | _ => none)
  | _ => none

inductive Form where
  /-- They are the fields of a document. -/
  | plain
  /-- Together they spell a value without parts. -/
  | spelled (a : Atom)
  /-- They spell code with a scope, which is under a key of its own. -/
  | scoped (source : String)
  | invalid
  deriving Repr

def scopeKey : String := "$scope"

/-- A reserved key stands alone, but for code, which may have a scope. -/
def form (fields : List (String × Json)) : Form :=
  match fields.findSome? fun (key, body) => reserved? key body with
  | none => .plain
  | some none => .invalid
  | some (some a) =>
    match a, fields.length, (fields.lookup scopeKey).isSome with
    | .code source, 2, true => .scoped source
    | _, 1, _ => .spelled a
    | _, _, _ => .invalid

mutual

def read? : Json → Option Value
  | .null => some .null
  | .bool b => some (.bool b)
  | .integer n => number (.integer n)
  | .double x => number (.double x)
  | .text s => some (.text s)
  | .array items => (readItems? items).map .array
  | .object fields =>
    match form fields with
    | .plain => (readFields? fields).map .document
    | .spelled a => some (.atom a)
    | .scoped source => (readScope? fields).map fun
      | some scope => .scopedCode source scope
      | none => .atom (.code source)
    | .invalid => none

def readItems? : List Json → Option (List Value)
  | [] => some []
  | v :: vs => do
    let first ← read? v
    let rest ← readItems? vs
    pure (first :: rest)

def readFields? : List (String × Json) → Option (List (String × Value))
  | [] => some []
  | (key, v) :: rest => do
    let value ← read? v
    let others ← readFields? rest
    pure ((key, value) :: others)

/-- The scope among the fields of code; a null one is none. The fields of a scope are those of a
document even where their keys are reserved. -/
def readScope? : List (String × Json) → Option (Option (List (String × Value)))
  | [] => some none
  | (key, .object fields) :: rest =>
    if key = scopeKey then (readFields? fields).map some else readScope? rest
  | (key, .null) :: rest => if key = scopeKey then some none else readScope? rest
  | (key, _) :: rest => if key = scopeKey then none else readScope? rest

end

def lastDatedYear : Int := 9999

def writeAtom : Atom → Json
  | .null => .null
  | .bool b => .bool b
  | .text s => .text s
  | .int32 n => .integer n.toInt
  | .int64 n => .integer n.toInt
  | .double x =>
    if x.isFinite then .double x
    else
      let name := if x.isNaN then "NaN" else "Infinity"
      .object [("$numberDouble", .text ((if x.negative then "-" else "") ++ name))]
  | .undefined => .object [("$undefined", .bool true)]
  | .minKey => .object [("$minKey", .integer 1)]
  | .maxKey => .object [("$maxKey", .integer 1)]
  | .symbol s => .object [("$symbol", .text s)]
  | .code s => .object [("$code", .text s)]
  | .objectId id => .object [("$oid", .text id.toHex)]
  | .instant t =>
    .object [("$date",
      if 0 ≤ t.millis.toInt ∧ t.year ≤ lastDatedYear then .text t.toRfc3339
      else .object [("$numberLong", .text (toString t.millis.toInt))])]
  | .timestamp time increment =>
    .object [("$timestamp", .object [("t", .integer time.toNat), ("i", .integer increment.toNat)])]
  | .pattern source options =>
    .object [("$regularExpression",
      .object [("pattern", .text source), ("options", .text (sortOptions options))])]
  | .binary subtype bytes =>
    .object [("$binary", .object [("base64", .text (Text.Base64.encode bytes)),
      ("subType", .text (Text.Hex.encode [subtype]))])]
  | .decimal d => .object [("$numberDecimal", .text d.toText)]
  | .pointer collection id =>
    .object [("$dbPointer", .object [("$ref", .text collection),
      ("$id", .object [("$oid", .text id.toHex)])])]

mutual

/-- Writes a value in the relaxed form, in which numbers are plain where JSON has them. -/
def write : Value → Json
  | .atom a => writeAtom a
  | .array items => .array (writeItems items)
  | .document fields => .object (writeFields fields)
  | .scopedCode source scope =>
    .object [("$code", .text source), (scopeKey, .object (writeFields scope))]

def writeItems : List Value → List Json
  | [] => []
  | v :: vs => write v :: writeItems vs

def writeFields : List (String × Value) → List (String × Json)
  | [] => []
  | (key, v) :: rest => (key, write v) :: writeFields rest

end

inductive DocumentFault where
  | invalid
  | notDocument (found : Value)
  deriving Repr

def DocumentFault.message : DocumentFault → String
  | invalid => "<extended json>"
  | notDocument found => "expected an object, found " ++ found.display

def readDocument (v : Json) : Except DocumentFault Document :=
  match read? v with
  | some (.document doc) => .ok doc
  | some other => .error (.notDocument other)
  | none => .error .invalid

end AccessRules.ExtendedJson
