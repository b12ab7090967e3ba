import AccessRules.Value.ExtendedJson

/-! Default values from JSON. Integers are stored with 64 bits. Objects are documents, but for those
with one or two fields that spell a value of another kind; inner objects are read first. -/
namespace AccessRules.Spelled

open ExtendedJson (doubleOf? binary? sortOptions)

def asText : Value → Option String
  | .atom (.text s) => some s
  | _ => none

def asDocument : Value → Option Document
  | .document doc => some doc
  | _ => none

def asPlainBytes : Value → Option (List UInt8)
  | .atom (.binary 0 bytes) => some bytes
  | _ => none

def wordPair? : Option Value → Option Value → Option (UInt32 × UInt32)
  | some (.atom (.int32 a)), some (.atom (.int32 b)) => some (a.toUInt32, b.toUInt32)
  | some (.atom (.int64 a)), some (.atom (.int64 b)) =>
    if 0 ≤ a.toInt ∧ a.toInt ≤ 0xffffffff ∧ 0 ≤ b.toInt ∧ b.toInt ≤ 0xffffffff then
      some (UInt32.ofNat a.toInt.toNat, UInt32.ofNat b.toInt.toNat)
    else none
  | _, _ => none

def isOne : Value → Bool
  | .atom (.int32 n) => n = 1
  | .atom (.int64 n) => n = 1
  | _ => false

/-- Bytes in base 64 with a subtype in hexadecimal, or bytes with a subtype in a wrapping of their
own. -/
def bytes? (body : Document) : Option Atom :=
  match (body.lookup "base64").bind asText with
  | some base64 => do binary? base64 (← asText (← body.lookup "subType"))
  | none => do
    let bytes ← asPlainBytes (← body.lookup "bytes")
    match ← body.lookup "subType" with
    | .atom (.int32 kind) =>
      if 0 ≤ kind.toInt ∧ kind.toInt < 256 then
        some (.binary (UInt8.ofNat kind.toInt.toNat) bytes)
      else none
    | _ => none

def single? (key : String) (body : Value) : Option Atom :=
  match key with
  | "$oid" => asText body >>= ObjectId.ofHex? |>.map .objectId
  | "$symbol" => asText body |>.map .symbol
  | "$numberInt" => asText body >>= Text.int32? |>.map .int32
  | "$numberLong" => asText body >>= Text.int64? |>.map .int64
  | "$numberDouble" => asText body >>= doubleOf? |>.map .double
  | "$numberDecimal" => asText body >>= Decimal128.ofText? |>.map .decimal
  | "$numberDecimalBytes" => do
    let bytes ← (asPlainBytes body).filter (·.length = 16)
    some (.decimal ⟨BitVec.ofNat 128 (Text.Hex.toNat bytes.reverse)⟩)
  | "$binary" => asDocument body >>= bytes?
  | "$code" => asText body |>.map .code
  | "$timestamp" => do
    let pair ← asDocument body
    let (time, increment) ← wordPair? (pair.lookup "t") (pair.lookup "i")
    some (.timestamp time increment)
  | "$regularExpression" => do
    let parts ← asDocument body
    let source ← asText (← parts.lookup "pattern")
    let options ← asText (← parts.lookup "options")
    some (.pattern source (sortOptions options))
  | "$dbPointer" => do
    let parts ← asDocument body
    let collection ← asText (← parts.lookup "$ref")
    match ← parts.lookup "$id" with
    | .atom (.objectId id) => some (.pointer collection id)
    | _ => none
  | "$date" =>
    match body with
    | .atom (.int64 millis) => some (.instant ⟨millis⟩)
    | .atom (.text s) => (Instant.ofRfc3339? s).map .instant
    | _ => none
  | "$minKey" => if isOne body then some .minKey else none
  | "$maxKey" => if isOne body then some .maxKey else none
  | "$undefined" =>
    match body with
    | .atom (.bool true) => some .undefined
    | _ => none
  | _ => none

def ofDocument (doc : Document) : Value :=
  match doc with
  | [(key, body)] => ((single? key body).map .atom).getD (.document doc)
  | [_, _] =>
    match (doc.lookup "$code").bind asText, (doc.lookup ExtendedJson.scopeKey).bind asDocument with
    | some source, some scope => .scopedCode source scope
    | _, _ => .document doc
  | _ => .document doc

mutual

/-- Reads a value; integers of more than 63 bits cannot be stored. -/
def read? : Json → Option Value
  | .null => some .null
  | .bool b => some (.bool b)
  | .integer n => if n ≤ 0x7fffffffffffffff then some (.int64 (Int64.ofInt n)) else none
  | .double x => some (.double x)
  | .text s => some (.text s)
  | .array items => (readItems? items).map .array
  | .object fields => (readFields? fields).map ofDocument

def readItems? : List Json → Option (List Value)
  | [] => some []
  | v :: vs => do
    let first ← read? v
    let rest ← readItems? vs
    pure (first :: rest)

def readFields? : List (String × Json) → Option (List (String × Value))
  | [] => some []
  | (key, v) :: rest => do
    let value ← read? v
    let others ← readFields? rest
    pure ((key, value) :: others)

end

end AccessRules.Spelled
