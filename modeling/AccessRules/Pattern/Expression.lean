import AccessRules.Pattern.CharSet

/-! Regular expressions over characters with assertions, and search by partial derivatives: reading
a character turns an expression into the list of what may remain to be read. -/
namespace AccessRules.Pattern

inductive Assertion where
  | textStart | textEnd
  | lineStart (crlf : Bool) | lineEnd (crlf : Bool)
  | boundary (unicode : Bool) | notBoundary (unicode : Bool)
  | wordStart (unicode : Bool) | wordEnd (unicode : Bool)
  | wordStartHalf (unicode : Bool) | wordEndHalf (unicode : Bool)
  deriving DecidableEq, Repr

structure Place where
  before : Option Char
  after : Option Char

namespace Assertion

private def isWord (unicode : Bool) : Option Char → Bool
  | some c => (if unicode then CharSet.word else CharSet.asciiWord).mem c
  | none => false

def holds (place : Place) : Assertion → Bool
  | textStart => place.before.isNone
  | textEnd => place.after.isNone
  | lineStart false => place.before.isNone || place.before == some '\n'
  | lineStart true =>
    place.before.isNone || place.before == some '\n' ||
      (place.before == some '\r' && place.after != some '\n')
  | lineEnd false => place.after.isNone || place.after == some '\n'
  | lineEnd true =>
    place.after.isNone || place.after == some '\r' ||
      (place.after == some '\n' && place.before != some '\r')
  | boundary u => isWord u place.before != isWord u place.after
  | notBoundary u => isWord u place.before == isWord u place.after
  | wordStart u => !isWord u place.before && isWord u place.after
  | wordEnd u => isWord u place.before && !isWord u place.after
  | wordStartHalf u => !isWord u place.before
  | wordEndHalf u => !isWord u place.after

end Assertion

inductive Expression where
  | empty
  | chars (s : CharSet)
  | assertion (a : Assertion)
  | seq (a b : Expression)
  | alt (a b : Expression)
  | star (a : Expression)
  deriving DecidableEq, Repr

namespace Expression

def nullable (place : Place) : Expression → Bool
  | empty => true
  | chars _ => false
  | assertion a => a.holds place
  | seq a b => a.nullable place && b.nullable place
  | alt a b => a.nullable place || b.nullable place
  | star _ => true

/-- What may remain to be read after the character `c` at a place. -/
def remainders (place : Place) (c : Char) : Expression → List Expression
  | empty => []
  | chars s => if s.mem c then [empty] else []
  | assertion _ => []
  | seq a b =>
    ((a.remainders place c).map fun r => if r = empty then b else seq r b) ++
      (if a.nullable place then b.remainders place c else [])
  | alt a b => a.remainders place c ++ b.remainders place c
  | star a => (a.remainders place c).map fun r => if r = empty then star a else seq r (star a)

/-- Whether some expression of `pending`, or one that starts at a later character, matches. -/
def searchFrom (start : Expression) : Option Char → List Expression → List Char → Bool
  | before, pending, [] => (start :: pending).any (nullable ⟨before, none⟩)
  | before, pending, c :: rest =>
    let place : Place := ⟨before, some c⟩
    let live := (start :: pending).eraseDups
    live.any (nullable place) ||
      searchFrom start (some c) (live.flatMap (remainders place c)).eraseDups rest

def search (e : Expression) (text : String) : Bool := searchFrom e none [] text.toList

def copies (e : Expression) : Nat → Expression → Expression
  | 0, tail => tail
  | n + 1, tail => seq e (copies e n tail)

def upTo (e : Expression) : Nat → Expression
  | 0 => empty
  | n + 1 => alt empty (seq e (upTo e n))

def repeated (e : Expression) (least : Nat) : Option Nat → Expression
  | none => copies e least (star e)
  | some most => copies e least (upTo e (most - least))

end Expression
end AccessRules.Pattern
