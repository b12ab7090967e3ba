import AccessRules.Pattern.Category
import AccessRules.Pattern.CaseFolding

/-! Sets of characters, described and tested by membership. -/
namespace AccessRules.Pattern

inductive CharSet where
  | range (low high : Nat)
  | category (c : Category)
  | none
  | union (a b : CharSet)
  | inter (a b : CharSet)
  | complement (a : CharSet)
  /-- Whatever differs only in case from a member; with `unicode` off, among ASCII letters. -/
  | caseless (unicode : Bool) (a : CharSet)
  deriving DecidableEq, Repr

namespace CharSet

def holds : CharSet → Nat → Bool
  | range low high, code => decide (low ≤ code ∧ code ≤ high)
  | category c, code => c.ranges.any fun (low, high) => decide (low ≤ code ∧ code ≤ high)
  | none, _ => false
  | union a b, code => a.holds code || b.holds code
  | inter a b, code => a.holds code && b.holds code
  | complement a, code => !a.holds code
  | caseless unicode a, code =>
    a.holds code || (if unicode then caseVariants code else asciiCaseVariants code).any a.holds

def mem (s : CharSet) (c : Char) : Bool := s.holds c.toNat

def char (c : Char) : CharSet := range c.toNat c.toNat

def diff (a b : CharSet) : CharSet := inter a (complement b)

def symmDiff (a b : CharSet) : CharSet := union (diff a b) (diff b a)

def ofRanges (ranges : List (Char × Char)) : CharSet :=
  ranges.foldr (fun (low, high) s => union (range low.toNat high.toNat) s) none

def ofCategories (categories : List Category) : CharSet :=
  categories.foldr (fun c s => union (category c) s) none

def asciiDigit : CharSet := ofRanges [('0', '9')]
def asciiSpace : CharSet := ofRanges [('\t', '\r'), (' ', ' ')]
def asciiWord : CharSet := ofRanges [('0', '9'), ('A', 'Z'), ('_', '_'), ('a', 'z')]

def digit : CharSet := category .decimalNumber

def space : CharSet :=
  [(0x9, 0xd), (0x20, 0x20), (0x85, 0x85), (0xa0, 0xa0), (0x1680, 0x1680), (0x2000, 0x200a),
    (0x2028, 0x2029), (0x202f, 0x202f), (0x205f, 0x205f), (0x3000, 0x3000)].foldr
    (fun (low, high) s => union (range low high) s) none

def word : CharSet :=
  union asciiWord <| union (ofCategories (Category.letters ++ Category.marks ++
    [.decimalNumber, .letterNumber, .connectorPunctuation])) <|
  [(0x200c, 0x200d), (0x24b6, 0x24e9), (0x1f130, 0x1f149), (0x1f150, 0x1f169), (0x1f170, 0x1f189)].foldr
    (fun (low, high) s => union (range low high) s) none

def posix? : String → Option CharSet
  | "alnum" => some (ofRanges [('0', '9'), ('A', 'Z'), ('a', 'z')])
  | "alpha" => some (ofRanges [('A', 'Z'), ('a', 'z')])
  | "ascii" => some (range 0 0x7f)
  | "blank" => some (ofRanges [('\t', '\t'), (' ', ' ')])
  | "cntrl" => some (union (range 0 0x1f) (range 0x7f 0x7f))
  | "digit" => some asciiDigit
  | "graph" => some (ofRanges [('!', '~')])
  | "lower" => some (ofRanges [('a', 'z')])
  | "print" => some (ofRanges [(' ', '~')])
  | "punct" => some (ofRanges [('!', '/'), (':', '@'), ('[', '`'), ('\x7b', '~')])
  | "space" => some asciiSpace
  | "upper" => some (ofRanges [('A', 'Z')])
  | "word" => some asciiWord
  | "xdigit" => some (ofRanges [('0', '9'), ('A', 'F'), ('a', 'f')])
  | _ => Option.none

/-- The set that a property name stands for, in loose spelling: case, blanks, hyphens, underscores
and a leading `is` do not count. -/
def property? (name : String) : Option CharSet :=
  let folded := (name.toList.map Char.toLower).filter fun c => c ≠ ' ' ∧ c ≠ '_' ∧ c ≠ '-'
  let bare := match folded with
    | 'i' :: 's' :: rest => rest
    | cs => cs
  match String.ofList bare with
  | "ascii" => some (range 0 0x7f)
  | "whitespace" | "space" | "wspace" => some space
  | key =>
    let value := (key.toList.dropWhile fun c => c ≠ '=' ∧ c ≠ ':').drop 1
    let name :=
      if key.startsWith "gc=" ∨ key.startsWith "gc:" ∨ key.startsWith "generalcategory=" ∨
        key.startsWith "generalcategory:" then String.ofList value else key
    (Category.ofName? name).map fun (categories, complemented) =>
      if complemented then complement (ofCategories categories) else ofCategories categories

/-- How many elementary ranges a set takes to spell out. -/
def weight : CharSet → Nat
  | range _ _ => 1
  | category _ => 60
  | none => 1
  | union a b => a.weight + b.weight
  | inter a b => a.weight + b.weight
  | complement a => a.weight + 4
  | caseless _ a => 2 * a.weight

end CharSet
end AccessRules.Pattern
