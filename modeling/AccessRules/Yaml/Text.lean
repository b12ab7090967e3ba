import AccessRules.Text.Number
import AccessRules.Yaml.Cursor

/-! The text of scalars over one or more lines. A single line end is folded into a blank, and of
several all but the first are kept; blanks around line ends are dropped. -/
namespace AccessRules.Yaml

structure Gap where
  /-- The blanks before the first line end. -/
  blanks : List Char
  breaks : Nat
  /-- Whether a line end that does not count stands before all others. -/
  continued : Bool
  deriving Repr

namespace Gap

def none : Gap := ⟨[], 0, false⟩

def addBlank (c : Char) (gap : Gap) : Gap :=
  if gap.breaks = 0 ∧ !gap.continued then { gap with blanks := gap.blanks ++ [c] } else gap

def addBreak (gap : Gap) : Gap := { gap with breaks := gap.breaks + 1 }

def text (gap : Gap) : List Char :=
  if gap.continued then List.replicate gap.breaks '\n'
  else match gap.breaks with
    | 0 => gap.blanks
    | 1 => [' ']
    | n + 2 => List.replicate (n + 1) '\n'

end Gap

/-- Reads up to the closing single quote; a quote inside is written twice. -/
def singleQuoted (gap : Gap) : List Char → Option (List Char × List Char)
  | [] => .none
  | '\'' :: '\'' :: rest =>
    (singleQuoted .none rest).map fun (s, rest) => (gap.text ++ '\'' :: s, rest)
  | c :: rest =>
    if c = '\'' then some (gap.text, rest)
    else if isBlank c then singleQuoted (gap.addBlank c) rest
    else if isBreak c then
      if documentMarkerFirst rest then .none else singleQuoted gap.addBreak rest
    else (singleQuoted .none rest).map fun (s, rest) => (gap.text ++ c :: s, rest)

def escaped? (c : Char) : Option Char :=
  match c with
  | '0' => some '\x00'
  | 'a' => some '\x07'
  | 'b' => some '\x08'
  | 't' | '\t' => some '\t'
  | 'n' => some '\n'
  | 'v' => some '\x0b'
  | 'f' => some '\x0c'
  | 'r' => some '\r'
  | 'e' => some '\x1b'
  | ' ' => some ' '
  | '"' => some '"'
  | '/' => some '/'
  | '\\' => some '\\'
  | 'N' => some '\x85'
  | '_' => some '\xa0'
  | 'L' => some '\u2028'
  | 'P' => some '\u2029'
  | _ => .none

def codePoint? (ds : List Char) : Option Char :=
  (Text.natural? 16 ds).bind fun n => if n.isValidChar then some (Char.ofNat n) else .none

/-- Reads up to the closing double quote. A line end after a backslash does not count. -/
def doubleQuoted (gap : Gap) : List Char → Option (List Char × List Char)
  | [] => .none
  | '\\' :: 'x' :: a :: b :: rest => do
    let c ← codePoint? [a, b]
    let (s, rest) ← doubleQuoted .none rest
    pure (gap.text ++ c :: s, rest)
  | '\\' :: 'u' :: a :: b :: c :: d :: rest => do
    let c ← codePoint? [a, b, c, d]
    let (s, rest) ← doubleQuoted .none rest
    pure (gap.text ++ c :: s, rest)
  | '\\' :: 'U' :: a :: b :: c :: d :: e :: f :: g :: h :: rest => do
    let c ← codePoint? [a, b, c, d, e, f, g, h]
    let (s, rest) ← doubleQuoted .none rest
    pure (gap.text ++ c :: s, rest)
  | '\\' :: c :: rest =>
    if isBreak c then
      if documentMarkerFirst rest then .none
      else (doubleQuoted ⟨[], 0, true⟩ rest).map fun (s, rest) => (gap.text ++ s, rest)
    else do
      let c ← escaped? c
      let (s, rest) ← doubleQuoted .none rest
      pure (gap.text ++ c :: s, rest)
  | c :: rest =>
    if c = '"' then some (gap.text, rest)
    else if c = '\\' then .none
    else if isBlank c then doubleQuoted (gap.addBlank c) rest
    else if isBreak c then
      if documentMarkerFirst rest then .none else doubleQuoted gap.addBreak rest
    else (doubleQuoted .none rest).map fun (s, rest) => (gap.text ++ c :: s, rest)

def isBracket (c : Char) : Bool := c ∈ [',', '[', ']', '\x7b', '\x7d']

def plainFirst (bracketed : Bool) : List Char → Bool
  | [] => false
  | c :: rest =>
    if c = '-' then !(rest.head?.any isBlank)
    else if c = '?' ∨ c = ':' then !bracketed && !blankFirst rest
    else !(isBlank c || isBreak c || isBracket c ||
      c ∈ ['#', '&', '*', '!', '|', '>', '\'', '"', '%', '@', '\x60'])

inductive Continuation where
  | faulty
  | over
  | more (s : List Char) (rest : List Char)

/-- Goes through a plain scalar. It ends at a comment, at a colon before a blank, between brackets
at punctuation, and outside brackets at a line that is not indented by `indent` columns. -/
def plainFrom (bracketed : Bool) (indent : Int) (gap : Gap) (column : Nat) :
    List Char → Continuation
  | [] => .over
  | c :: rest =>
    if isBlank c then
      if c = '\t' ∧ 0 < gap.breaks ∧ (column : Int) < indent then .faulty
      else plainFrom bracketed indent (gap.addBlank c) (column + 1) rest
    else if isBreak c then plainFrom bracketed indent gap.addBreak 0 rest
    else
      let apart := 0 < gap.breaks ∨ !gap.blanks.isEmpty
      let outside := 0 < gap.breaks ∧ !bracketed ∧ (column : Int) < indent
      let marker := column = 0 ∧ documentMarkerFirst (c :: rest)
      if outside ∨ marker ∨ (apart ∧ c = '#') then .over
      else if c = ':' ∧ blankFirst rest then .over
      else if bracketed ∧ c = ':' ∧ rest.head?.any (fun d => isBracket d || d = '?') then .faulty
      else if bracketed ∧ isBracket c then .over
      else match plainFrom bracketed indent .none (column + 1) rest with
        | .faulty => .faulty
        | .over => .more (gap.text ++ [c]) rest
        | .more s rest => .more (gap.text ++ c :: s) rest

end AccessRules.Yaml
