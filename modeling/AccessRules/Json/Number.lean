import AccessRules.Json
import AccessRules.Text.Number

/-! Numbers in JSON text. Digits are collected while they fit in 64 bits, and a number with a point
or an exponent is the rounded product or quotient of those digits and a power of ten. -/
namespace AccessRules.Json.Number

open Text (isDigit natural?)

/-- Appends digits to a number as long as the result is below `2 ^ 64`, and counts them. -/
def collect : Nat → List Char → Nat × Nat
  | n, [] => (n, 0)
  | n, c :: rest =>
    let next := 10 * n + (c.toNat - 48)
    if next < 1 <<< 64 then
      let (result, taken) := collect next rest
      (result, taken + 1)
    else (n, 0)

private def powerOfTen (e : Nat) : Nat := Double.nearest (Nat.pow 10 e) 1

def scale (digits : Nat) (exponent : Int) : Option Double :=
  let x := Double.ofInt digits
  if x.magnitude = 0 then some x
  else if 308 < exponent then none
  else if 0 ≤ exponent then
    some (x.mulMagnitude (powerOfTen exponent.toNat)) |>.filter Double.isFinite
  else if -308 ≤ exponent then some (x.divMagnitude (powerOfTen (-exponent).toNat))
  else if -616 ≤ exponent then
    some ((x.divMagnitude (powerOfTen 308)).divMagnitude (powerOfTen (-exponent - 308).toNat))
  else some (Double.zero false)

def maxExponent : Nat := 0x7fffffff

def withExponent (digits : Nat) (start : Int) (negative : Bool) (exponent : Nat) : Option Double :=
  if maxExponent < exponent then
    if digits ≠ 0 ∧ ¬ negative then none else some (Double.zero false)
  else scale digits (if negative then start - exponent else start + exponent)

/-- An integer that fits 64 bits with its sign; a negative zero and larger ones are doubles. -/
def ofDigits (negative : Bool) (n : Nat) : Json :=
  if ¬ negative then .integer n
  else if n = 0 ∨ 1 <<< 63 < n then .double (Double.ofInt n).neg
  else .integer (-(n : Int))

private def digits (cs : List Char) : List Char × List Char :=
  (cs.takeWhile isDigit, cs.dropWhile isDigit)

private def fraction? : List Char → Option (List Char × List Char)
  | '.' :: rest => some (digits rest) |>.filter fun parts => !parts.1.isEmpty
  | cs => some ([], cs)

private def exponent? : List Char → Option (Option (Bool × Nat) × List Char)
  | c :: rest =>
    if c = 'e' ∨ c = 'E' then
      let (negative, rest) := match rest with
        | '+' :: after => (false, after)
        | '-' :: after => (true, after)
        | _ => (false, rest)
      let (ds, rest) := digits rest
      (natural? 10 ds).map fun e => (some (negative, e), rest)
    else some (none, c :: rest)
  | [] => some (none, [])

/-- Reads an unsigned number; a leading zero stands alone before the point. -/
private def unsigned? (negative : Bool) (cs : List Char) : Option (Json × List Char) := do
  let (whole, rest) := digits cs
  if whole.isEmpty ∨ (whole.head? = some '0' ∧ 1 < whole.length) then none
  let (decimals, rest) ← fraction? rest
  let (exponent, rest) ← exponent? rest
  let (n, taken) := collect 0 whole
  let dropped := whole.length - taken
  let signed := fun (x : Double) => Json.double (if negative then x.neg else x)
  if decimals.isEmpty ∧ exponent.isNone ∧ dropped = 0 then some (ofDigits negative n, rest)
  else
    let (n, places) := collect n decimals
    let start := (dropped : Int) - places
    let x ← match exponent with
      | some (minus, e) => withExponent n start minus e
      | none => scale n start
    some (signed x, rest)

def read? : List Char → Option (Json × List Char)
  | '-' :: rest => unsigned? true rest
  | cs => unsigned? false cs

end AccessRules.Json.Number
