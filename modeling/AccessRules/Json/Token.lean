import AccessRules.Json.Number

/-! The tokens of a JSON text. The first place that cannot be read becomes a last token of its own,
so that a reader meets it in its turn. -/
namespace AccessRules.Json

inductive Token where
  | openArray
  | closeArray
  | openObject
  | closeObject
  | comma
  | colon
  | text (s : String)
  /-- A null, a truth value or a number. -/
  | scalar (value : Json)
  | malformed
  deriving Repr

namespace Token

def isBlank (c : Char) : Bool := c = ' ' || c = '\n' || c = '\r' || c = '\t'

private def unit? (a b c d : Char) : Option Nat := Text.natural? 16 [a, b, c, d]

/-- Reads the rest of a text between quotes. Characters beyond sixteen bits are escaped as two
units, and no unit of such a pair may stand alone. -/
def readText : List Char → Option (List Char × List Char)
  | '"' :: rest => some ([], rest)
  | '\\' :: 'u' :: a :: b :: c :: d :: rest => do
    let unit ← unit? a b c d
    if 0xdc00 ≤ unit ∧ unit < 0xe000 then none
    else if 0xd800 ≤ unit ∧ unit < 0xdc00 then
      match rest with
      | '\\' :: 'u' :: e :: f :: g :: h :: rest =>
        let low ← unit? e f g h
        if 0xdc00 ≤ low ∧ low < 0xe000 then
          let code := 0x10000 + (unit - 0xd800) * 0x400 + (low - 0xdc00)
          (readText rest).map fun (s, rest) => (Char.ofNat code :: s, rest)
        else none
      | _ => none
    else (readText rest).map fun (s, rest) => (Char.ofNat unit :: s, rest)
  | '\\' :: c :: rest => do
    let escaped ← match c with
      | '"' => some '"'
      | '\\' => some '\\'
      | '/' => some '/'
      | 'b' => some '\x08'
      | 'f' => some '\x0c'
      | 'n' => some '\n'
      | 'r' => some '\r'
      | 't' => some '\t'
      | _ => none
    (readText rest).map fun (s, rest) => (escaped :: s, rest)
  | c :: rest =>
    if c.toNat < 32 ∨ c = '\\' then none
    else (readText rest).map fun (s, rest) => (c :: s, rest)
  | [] => none

def next? : List Char → Option (Token × List Char)
  | '[' :: rest => some (openArray, rest)
  | ']' :: rest => some (closeArray, rest)
  | '\x7b' :: rest => some (openObject, rest)
  | '\x7d' :: rest => some (closeObject, rest)
  | ',' :: rest => some (comma, rest)
  | ':' :: rest => some (colon, rest)
  | '"' :: rest => (readText rest).map fun (s, rest) => (text (String.ofList s), rest)
  | 'n' :: 'u' :: 'l' :: 'l' :: rest => some (scalar .null, rest)
  | 't' :: 'r' :: 'u' :: 'e' :: rest => some (scalar (.bool true), rest)
  | 'f' :: 'a' :: 'l' :: 's' :: 'e' :: rest => some (scalar (.bool false), rest)
  | cs => (Number.read? cs).map fun (n, rest) => (scalar n, rest)

private def scan : Nat → List Char → List Token
  | 0, _ => []
  | fuel + 1, cs =>
    match cs.dropWhile isBlank with
    | [] => []
    | rest => match next? rest with
      | some (token, rest) => token :: scan fuel rest
      | none => [malformed]

/-- Every token takes a character, so the length of a text bounds its tokens. -/
def ofText (s : String) : List Token := scan s.length s.toList

end Token
end AccessRules.Json
