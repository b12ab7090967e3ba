import AccessRules.Json.Token
import AccessRules.Value

/-! Readers of JSON tokens. A reader stops at the first token that does not fit, so of two faults in
a text the earlier is reported. -/
namespace AccessRules.Json

abbrev Reader (α : Type) := StateT (List Token) (Except Fault) α

namespace Reader
variable {α : Type}

def token : Reader Token := do
  match ← get with
  | [] => throw .malformed
  | t :: rest =>
    set rest
    pure t

def peek : Reader (Option Token) := do pure (← get).head?

def expect (wanted : Token → Bool) : Reader Unit := do
  if wanted (← token) then pure () else throw .malformed

/-- A value that begins with the token has another form than the wanted one; other tokens begin no
value at all. -/
def mismatched : Token → Fault
  | .openArray => .mismatch
  | .openObject => .mismatch
  | .text _ => .mismatch
  | .scalar _ => .mismatch
  | _ => .malformed

def text : Reader String := do
  match ← token with
  | .text s => pure s
  | t => throw (mismatched t)

def null : Reader Unit := do
  match ← token with
  | .scalar .null => pure ()
  | t => throw (mismatched t)

def nullableText : Reader (Option String) := do
  match ← peek with
  | some (.scalar .null) => do
    let _ ← token
    pure none
  | _ => do pure (some (← text))

def comma : Token → Bool
  | .comma => true
  | _ => false

def colon : Token → Bool
  | .colon => true
  | _ => false

def closeArray : Token → Bool
  | .closeArray => true
  | _ => false

def closeObject : Token → Bool
  | .closeObject => true
  | _ => false

def key : Reader String := do
  match ← token with
  | .text s => do
    expect colon
    pure s
  | _ => throw .malformed

def following (part : Reader α) (close : Token → Bool) : Nat → Reader (List α)
  | 0 => throw .malformed
  | fuel + 1 => do
    let t ← token
    if close t then pure []
    else if comma t then do
      let first ← part
      let rest ← following part close fuel
      pure (first :: rest)
    else throw .malformed

/-- Parts between commas up to a closing token. Every part takes a token, which bounds them. -/
def parts (part : Reader α) (close : Token → Bool) : Reader (List α) := do
  let tokens ← get
  if tokens.head?.any close then do
    set (tokens.drop 1)
    pure []
  else do
    let first ← part
    let rest ← following part close tokens.length
    pure (first :: rest)

/-- The fields of an object after its opening brace, each key with its last value. -/
def fields (value : Reader α) : Reader (List (String × α)) := do
  parts (do pure (← key, ← value)) closeObject

def insertField (key : String) (value : Json) : List (String × Json) → List (String × Json)
  | [] => [(key, value)]
  | (k, v) :: rest => if k = key then (key, value) :: rest else (k, v) :: insertField key value rest

/-- Any value in which at most `depth` arrays and objects contain each other. -/
def value (depth : Nat) : Reader Json := do
  match ← token with
  | .scalar v => pure v
  | .text s => pure (.text s)
  | .openArray =>
    match depth with
    | 0 => throw .malformed
    | inner + 1 => do pure (.array (← parts (value inner) closeArray))
  | .openObject =>
    match depth with
    | 0 => throw .malformed
    | inner + 1 => do
      let all ← fields (value inner)
      pure (.object (all.foldl (fun kept (k, v) => insertField k v kept) []))
  | _ => throw .malformed

def maxDepth : Nat := 127

def run (reader : Reader α) (s : String) : Except Fault α := do
  let (a, rest) ← StateT.run reader (Token.ofText s)
  if rest.isEmpty then pure a else throw .malformed

end Reader

def parse (s : String) : Except Fault Json := Reader.run (Reader.value Reader.maxDepth) s

end AccessRules.Json
