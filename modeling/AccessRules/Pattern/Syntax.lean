import AccessRules.Pattern
import AccessRules.Pattern.Expression
import AccessRules.Text.Number

/-! The written form of regular expressions. Reading goes from left to right with the enclosing
groups on a stack, and gives nothing for text that is no regular expression. -/
namespace AccessRules.Pattern

structure Flags extends Options where
  unicode : Bool := true
  crlf : Bool := false
  deriving Repr

structure Piece where
  expression : Expression
  depth : Nat
  weight : Nat

namespace Syntax

def depthLimit : Nat := 250

def weightLimit : Nat := 436906

mutual

def skipVerbose : List Char → List Char
  | [] => []
  | c :: rest =>
    if CharSet.space.mem c then skipVerbose rest
    else if c = '#' then skipComment rest
    else c :: rest

def skipComment : List Char → List Char
  | [] => []
  | c :: rest => if c = '\n' then skipVerbose rest else skipComment rest

end

/-- In verbose mode blanks and comments stand for nothing. -/
def skipBlank (flags : Flags) (cs : List Char) : List Char :=
  if flags.verbose then skipVerbose cs else cs

inductive Primitive where
  | literal (c : Char)
  | set (s : CharSet)
  | assertion (a : Assertion)

private def hexValue? (cs : List Char) : Option Char :=
  (Text.natural? 16 cs).bind fun n =>
    if n.isValidChar then some (Char.ofNat n) else none

/-- The code point after `\x`, `\u` or `\U`: a fixed number of digits, or any number in braces. -/
private def hexLiteral? (flags : Flags) (width : Nat) (cs : List Char) : Option (Primitive × List Char) :=
  match skipBlank flags cs with
  | '\x7b' :: rest =>
    let digits := rest.takeWhile (· ≠ '\x7d')
    match rest.dropWhile (· ≠ '\x7d') with
    | _ :: rest => (hexValue? digits).map fun c => (.literal c, rest)
    | [] => none
  | cs =>
    let digits := cs.take width
    if digits.length = width then (hexValue? digits).map fun c => (.literal c, cs.drop width) else none

/-- A set of the flags in force: without Unicode only ASCII sets are available. -/
private def perlSet (flags : Flags) (unicode ascii : CharSet) : CharSet :=
  if flags.unicode then unicode else ascii

private def propertySet? (flags : Flags) (negated : Bool) (name : List Char) : Option CharSet := do
  if ¬ flags.unicode then none
  let s ← CharSet.property? (String.ofList name)
  let s := if flags.caseless then CharSet.caseless true s else s
  pure (if negated then .complement s else s)

private def property? (flags : Flags) (negated : Bool) (cs : List Char) :
    Option (Primitive × List Char) :=
  match skipBlank flags cs with
  | '\x7b' :: rest =>
    let name := rest.takeWhile (· ≠ '\x7d')
    match rest.dropWhile (· ≠ '\x7d') with
    | _ :: rest => (propertySet? flags negated name).map fun s => (.set s, rest)
    | [] => none
  | c :: rest =>
    if c = '\\' then none else (propertySet? flags negated [c]).map fun s => (.set s, rest)
  | [] => none

private def boundary? (flags : Flags) (cs : List Char) : Option (Primitive × List Char) :=
  match cs with
  | '\x7b' :: rest =>
    let name := (rest.takeWhile fun c => c.isAlpha || c == '-')
    match String.ofList name, rest.drop name.length with
    | "start", '\x7d' :: rest => some (.assertion (.wordStart flags.unicode), rest)
    | "end", '\x7d' :: rest => some (.assertion (.wordEnd flags.unicode), rest)
    | "start-half", '\x7d' :: rest => some (.assertion (.wordStartHalf flags.unicode), rest)
    | "end-half", '\x7d' :: rest => some (.assertion (.wordEndHalf flags.unicode), rest)
    | "", _ => some (.assertion (.boundary flags.unicode), cs)
    | _, _ => none
  | _ => some (.assertion (.boundary flags.unicode), cs)

def escape? (flags : Flags) : List Char → Option (Primitive × List Char)
  | [] => none
  | c :: rest =>
    let lit (n : Nat) := some (Primitive.literal (Char.ofNat n), rest)
    let place (a : Assertion) := some (Primitive.assertion a, rest)
    let ofSet (s : CharSet) := some (Primitive.set s, rest)
    let negated (s : CharSet) := if flags.unicode then ofSet (.complement s) else none
    match c with
    | 'x' => hexLiteral? flags 2 rest
    | 'u' => hexLiteral? flags 4 rest
    | 'U' => hexLiteral? flags 8 rest
    | 'p' => property? flags false rest
    | 'P' => property? flags true rest
    | 'd' => ofSet (perlSet flags .digit .asciiDigit)
    | 's' => ofSet (perlSet flags .space .asciiSpace)
    | 'w' => ofSet (perlSet flags .word .asciiWord)
    | 'D' => negated .digit
    | 'S' => negated .space
    | 'W' => negated .word
    | 'a' => lit 0x07
    | 'f' => lit 0x0c
    | 't' => lit 0x09
    | 'n' => lit 0x0a
    | 'r' => lit 0x0d
    | 'v' => lit 0x0b
    | 'A' => place .textStart
    | 'z' => place .textEnd
    | 'b' => boundary? flags rest
    | 'B' => place (.notBoundary flags.unicode)
    | '<' => place (.wordStart flags.unicode)
    | '>' => place (.wordEnd flags.unicode)
    | _ =>
      if c.toNat < 128 ∧ ¬ c.isAlphanum then some (.literal c, rest) else none

/-! Bracketed sets. -/

inductive SetOperation where
  | inter | diff | symmDiff

def SetOperation.apply : SetOperation → CharSet → CharSet → CharSet
  | inter, a, b => .inter a b
  | diff, a, b => .diff a b
  | symmDiff, a, b => .symmDiff a b

structure Bracket where
  negated : Bool
  pending : Option (CharSet × SetOperation) := none
  items : CharSet := .none
  depth : Nat := 1

private def folded (flags : Flags) (s : CharSet) : CharSet :=
  if flags.caseless then .caseless flags.unicode s else s

private def Bracket.operand (flags : Flags) (b : Bracket) : CharSet :=
  match b.pending with
  | some (left, op) => op.apply left (folded flags b.items)
  | none => b.items

private def Bracket.close (flags : Flags) (b : Bracket) : CharSet :=
  let s := folded flags (b.operand flags)
  if b.negated then .complement s else s

private def Bracket.add (b : Bracket) (s : CharSet) : Bracket := { b with items := .union b.items s }

private def Bracket.operate (flags : Flags) (b : Bracket) (op : SetOperation) : Bracket :=
  { b with pending := some (folded flags (b.operand flags), op), items := .none }

private def skipHyphens (flags : Flags) : Nat → Bracket → List Char → Bracket × List Char
  | 0, b, cs => (b, cs)
  | n + 1, b, cs =>
    match cs with
    | '-' :: rest => skipHyphens flags n (b.add (.char '-')) (skipBlank flags rest)
    | _ => (b, cs)

/-- Opens a bracket after `[`: an optional `^`, literal hyphens, and a literal `]` in front. -/
private def openBracket? (flags : Flags) (cs : List Char) : Option (Bracket × List Char) :=
  let cs := skipBlank flags cs
  let (negated, cs) := match cs with
    | '^' :: rest => (true, skipBlank flags rest)
    | _ => (false, cs)
  let (b, after) := skipHyphens flags cs.length { negated } cs
  match after with
  | [] => none
  | ']' :: rest =>
    if after.length = cs.length then
      match skipBlank flags rest with
      | [] => none
      | rest => some (b.add (.char ']'), rest)
    else some (b, after)
  | _ => some (b, after)

private def posix? (cs : List Char) : Option (CharSet × List Char) :=
  match cs with
  | ':' :: rest =>
    let (negated, rest) := match rest with
      | '^' :: rest => (true, rest)
      | _ => (false, rest)
    let name := rest.takeWhile (· ≠ ':')
    match rest.drop name.length with
    | ':' :: ']' :: rest =>
      (CharSet.posix? (String.ofList name)).map fun s => (if negated then .complement s else s, rest)
    | _ => none
  | _ => none

private def setPrimitive? (flags : Flags) : List Char → Option (Primitive × List Char)
  | '\\' :: rest => escape? flags rest
  | c :: rest => some (.literal c, rest)
  | [] => none

private def Primitive.toSet? : Primitive → Option CharSet
  | .literal c => some (.char c)
  | .set s => some s
  | .assertion _ => none

private def Primitive.toLiteral? : Primitive → Option Char
  | .literal c => some c
  | _ => none

private def setRange? (flags : Flags) (cs : List Char) : Option (CharSet × List Char) := do
  let (first, rest) ← setPrimitive? flags cs
  let rest := skipBlank flags rest
  match rest with
  | [] => none
  | '-' :: after =>
    match skipBlank flags after with
    | [] => none
    | ']' :: _ => (first.toSet?).map (·, rest)
    | '-' :: _ => (first.toSet?).map (·, rest)
    | after =>
      let (last, rest) ← setPrimitive? flags after
      let low ← first.toLiteral?
      let high ← last.toLiteral?
      if low ≤ high then some (.range low.toNat high.toNat, rest) else none
  | _ => (first.toSet?).map (·, rest)

/-- Reads items until the outermost bracket closes; `fuel` bounds the characters left. -/
private def bracketItems? (flags : Flags) :
    Nat → Bracket → List Bracket → List Char → Option (CharSet × Nat × List Char)
  | 0, _, _, _ => none
  | fuel + 1, b, outer, cs =>
    match skipBlank flags cs with
    | [] => none
    | '[' :: rest =>
      match posix? rest with
      | some (s, rest) => bracketItems? flags fuel (b.add (folded flags s)) outer rest
      | none => do
        let (inner, rest) ← openBracket? flags rest
        bracketItems? flags fuel inner (b :: outer) rest
    | ']' :: rest =>
      match outer with
      | [] => some (b.close flags, b.depth, rest)
      | o :: outer =>
        bracketItems? flags fuel { o.add (b.close flags) with depth := max o.depth (b.depth + 1) } outer rest
    | '&' :: '&' :: rest => bracketItems? flags fuel (b.operate flags .inter) outer rest
    | '-' :: '-' :: rest => bracketItems? flags fuel (b.operate flags .diff) outer rest
    | '~' :: '~' :: rest => bracketItems? flags fuel (b.operate flags .symmDiff) outer rest
    | cs => do
      let (s, rest) ← setRange? flags cs
      bracketItems? flags fuel (b.add s) outer rest

def bracket? (flags : Flags) (cs : List Char) : Option (CharSet × Nat × List Char) := do
  let (b, rest) ← openBracket? flags cs
  bracketItems? flags (rest.length + 1) b [] rest

/-! Groups, alternatives and repetition. -/

/-- What stands in a sequence: a part, or a flag directive, which cannot be repeated. -/
inductive Item where
  | piece (p : Piece)
  | directive

/-- The alternatives of an open group that are finished and the items of the present one, each list
with the latest first. -/
structure Branches where
  done : List Piece := []
  current : List Item := []

structure State where
  flags : Flags
  here : Branches := {}
  /-- The enclosing groups, with the flags to return to. -/
  outer : List (Branches × Flags) := []
  names : List (List Char) := []

private def sequence (items : List Item) : Piece :=
  let pieces := items.reverse.filterMap fun
    | .piece p => some p
    | .directive => none
  let expression := match pieces.reverse with
    | [] => Expression.empty
    | last :: before => before.foldl (fun e p => .seq p.expression e) last.expression
  let depth := pieces.foldl (fun d p => max d p.depth) 0
  ⟨expression, if 2 ≤ items.length then depth + 1 else depth, pieces.foldl (fun w p => w + p.weight) 0⟩

private def Branches.close (b : Branches) : Piece :=
  let last := sequence b.current
  match b.done with
  | [] => last
  | first :: others =>
    let all := first :: others
    ⟨all.foldl (fun e p => .alt p.expression e) last.expression,
      all.foldl (fun d p => max d p.depth) last.depth + 1,
      all.foldl (fun w p => w + p.weight + 1) last.weight⟩

private def State.push (s : State) (p : Piece) : State :=
  { s with here := { s.here with current := .piece p :: s.here.current } }

private def flag? (on : Bool) (f : Flags) : Char → Option Flags
  | 'i' => some { f with caseless := on }
  | 'm' => some { f with multiLine := on }
  | 's' => some { f with dotAll := on }
  | 'U' => some f
  | 'u' => some { f with unicode := on }
  | 'R' => some { f with crlf := on }
  | 'x' => some { f with verbose := on }
  | _ => none

/-- Flags up to `:` or `)`: each at most once, at most one minus sign, none of them last. -/
private def flags? : List Char → List Char → Flags → Option (Flags × Bool × Bool × List Char)
  | seen, ':' :: rest, f => if seen.head? = some '-' then none else some (f, false, seen.isEmpty, rest)
  | seen, ')' :: rest, f => if seen.head? = some '-' then none else some (f, true, seen.isEmpty, rest)
  | seen, c :: rest, f =>
    if seen.contains c then none
    else if c = '-' then flags? (c :: seen) rest f
    else (flag? (¬ seen.contains '-') f c).bind fun f => flags? (c :: seen) rest f
  | _, [], _ => none

private def isLetter (c : Char) : Bool :=
  (CharSet.ofCategories (Category.letters ++ [.letterNumber])).mem c

private def isNameChar (c : Char) : Bool :=
  c == '_' || c == '.' || c == '[' || c == ']' || isLetter c ||
    (CharSet.ofCategories Category.numbers).mem c

private def name? (names : List (List Char)) (cs : List Char) : Option (List Char × List Char) :=
  let name := cs.takeWhile (· ≠ '>')
  match name, cs.drop name.length with
  | first :: others, _ :: rest =>
    if (first = '_' ∨ isLetter first) ∧ others.all isNameChar ∧ ¬ names.contains name then
      some (name, rest)
    else none
  | _, _ => none

private def State.enter (s : State) (inside : Flags) : State :=
  { s with flags := inside, here := {}, outer := (s.here, s.flags) :: s.outer }

/-- Opens a group after `(`, or applies a flag directive. Looking around is not available. -/
private def group? (s : State) (cs : List Char) : Option (State × List Char) :=
  match skipBlank s.flags cs with
  | '?' :: '=' :: _ => none
  | '?' :: '!' :: _ => none
  | '?' :: '<' :: '=' :: _ => none
  | '?' :: '<' :: '!' :: _ => none
  | '?' :: 'P' :: '<' :: rest =>
    (name? s.names rest).map fun (name, rest) => ({ s with names := name :: s.names }.enter s.flags, rest)
  | '?' :: '<' :: rest =>
    (name? s.names rest).map fun (name, rest) => ({ s with names := name :: s.names }.enter s.flags, rest)
  | '?' :: rest =>
    match flags? [] rest s.flags with
    | some (f, true, false, rest) =>
      some ({ s with flags := f, here := { s.here with current := .directive :: s.here.current } }, rest)
    | some (_, true, true, _) => none
    | some (f, false, _, rest) => some (s.enter f, rest)
    | none => none
  | cs => some (s.enter s.flags, cs)

private def leave? (s : State) : Option State :=
  match s.outer with
  | [] => none
  | (outside, flags) :: outer =>
    let p := s.here.close
    some ({ s with here := outside, flags, outer }.push { p with depth := p.depth + 1, weight := p.weight + 1 })

private def lazily (cs : List Char) : List Char :=
  match cs with
  | '?' :: rest => rest
  | _ => cs

private def repeat? (s : State) (least : Nat) (most : Option Nat) : Option State :=
  match s.here.current with
  | .piece p :: before =>
    let weight := p.weight * max 1 (most.getD (least + 1)) + 1
    if weightLimit < weight then none
    else
      let again : Piece := ⟨p.expression.repeated least most, p.depth + 1, weight⟩
      some { s with here := { s.here with current := .piece again :: before } }
  | _ => none

private def skipSpace (cs : List Char) : List Char := cs.dropWhile CharSet.space.mem

private def count? (flags : Flags) (cs : List Char) : Option Nat × List Char :=
  let rec digits : Nat → List Char → List Char → List Char × List Char
    | 0, ds, cs => (ds, cs)
    | n + 1, ds, cs =>
      match cs with
      | c :: rest => if Text.isDigit c then digits n (ds ++ [c]) (skipBlank flags rest) else (ds, cs)
      | [] => (ds, cs)
  let (ds, rest) := digits cs.length [] (skipSpace cs)
  let rest := skipBlank flags (skipSpace rest)
  ((Text.natural? 10 ds).filter (· < 1 <<< 32), rest)

private def counted? (s : State) (cs : List Char) : Option (State × List Char) := do
  let (least, rest) := count? s.flags (skipBlank s.flags cs)
  let (least, most, rest) ← match rest with
    | ',' :: rest =>
      match skipBlank s.flags rest with
      | '\x7d' :: rest => least.map fun n => (n, none, '\x7d' :: rest)
      | rest =>
        let (most, rest) := count? s.flags rest
        least.bind fun n => most.map fun m => (n, some m, rest)
    | _ => least.map fun n => (n, some n, rest)
  match rest with
  | '\x7d' :: rest =>
    if most.any (· < least) then none
    else
      let s ← repeat? s least most
      some (s, lazily (skipBlank s.flags rest))
  | _ => none

private def utf8Length (c : Char) : Nat := c.utf8Size

private def literal (s : State) (c : Char) : State :=
  s.push ⟨.chars (folded s.flags (.char c)), 0, utf8Length c⟩

private def dot? (s : State) : Option State :=
  if ¬ s.flags.unicode then none
  else
    let excluded := if s.flags.dotAll then CharSet.none
      else if s.flags.crlf then .union (.char '\n') (.char '\r')
      else .char '\n'
    some (s.push ⟨.chars (.complement excluded), 0, 10⟩)

private def assert (s : State) (a : Assertion) : State := s.push ⟨.assertion a, 0, 1⟩

private def step? (s : State) : List Char → Option (State × List Char)
  | [] => none
  | c :: rest =>
    match c with
    | '(' => group? s rest
    | ')' => (leave? s).map (·, rest)
    | '|' => some ({ s with here := { done := sequence s.here.current :: s.here.done } }, rest)
    | '[' => (bracket? s.flags rest).bind fun (set, depth, rest) =>
      if ¬ s.flags.unicode ∧ (set.holds 0x80 ∨ set.holds 0x10ffff) then none
      else some (s.push ⟨.chars set, depth, 2 * set.weight⟩, rest)
    | '?' => (repeat? s 0 (some 1)).map (·, lazily rest)
    | '*' => (repeat? s 0 none).map (·, lazily rest)
    | '+' => (repeat? s 1 none).map (·, lazily rest)
    | '\x7b' => counted? s rest
    | '.' => (dot? s).map (·, rest)
    | '^' => some (assert s (if s.flags.multiLine then .lineStart s.flags.crlf else .textStart), rest)
    | '$' => some (assert s (if s.flags.multiLine then .lineEnd s.flags.crlf else .textEnd), rest)
    | '\\' => (escape? s.flags rest).map fun (primitive, rest) =>
      (match primitive with
        | .literal c => literal s c
        | .set set => s.push ⟨.chars set, 0, 2 * set.weight⟩
        | .assertion a => assert s a, rest)
    | _ => some (literal s c, rest)

private def run? : Nat → State → List Char → Option State
  | 0, s, cs => if cs.isEmpty then some s else none
  | fuel + 1, s, cs =>
    match skipBlank s.flags cs with
    | [] => some s
    | cs => (step? s cs).bind fun (s, rest) => run? fuel s rest

def parse? (flags : Flags) (text : String) : Option Expression := do
  let cs := text.toList
  let s ← run? (cs.length + 1) { flags } cs
  if ¬ s.outer.isEmpty then none
  let p := s.here.close
  if depthLimit < p.depth ∨ weightLimit < p.weight then none
  pure p.expression

end Syntax

/-- The engine that reads this written form. -/
instance : Engine where
  Expression := Expression
  compile? options text := Syntax.parse? { toOptions := options } text
  search := Expression.search

end AccessRules.Pattern
