import AccessRules.Text.Number

/-! Decimal numbers of up to thirty-four digits as 128 bits, with their written form. -/
namespace AccessRules

/-- A 128-bit decimal, given by its interchange encoding with a binary coefficient. -/
structure Decimal128 where
  bits : BitVec 128
  deriving DecidableEq, Repr, Inhabited

namespace Decimal128

def maxDigits : Nat := 34
def minExponent : Int := -6176
def maxExponent : Int := 6111

def ofParts (negative : Bool) (coefficient : Nat) (exponent : Int) : Decimal128 :=
  let sign : Nat := if negative then 1 <<< 127 else 0
  ⟨BitVec.ofNat 128 (sign + ((exponent - minExponent).toNat <<< 113) + coefficient)⟩

def infinity (negative : Bool) : Decimal128 :=
  ⟨BitVec.ofNat 128 ((if negative then 1 <<< 127 else 0) + (0x78 <<< 120))⟩

def nan (negative signalling : Bool) : Decimal128 :=
  let kind : Nat := if signalling then 0x7e else 0x7c
  ⟨BitVec.ofNat 128 ((if negative then 1 <<< 127 else 0) + (kind <<< 120))⟩

private def shorten (digits : List Char) (keep : Nat) : Option (List Char) :=
  if (digits.drop keep).all (· = '0') then some (digits.take keep) else none

private def fit (digits : List Char) (exponent : Int) : Option (List Char × Int) := do
  let kept ← if maxDigits < digits.length then shorten digits maxDigits else some digits
  let exponent := exponent + (digits.length - kept.length : Nat)
  if exponent < minExponent then
    if kept = ['0'] then some (kept, minExponent)
    else
      let excess := (minExponent - exponent).toNat
      if kept.length < excess then none
      else (shorten kept (kept.length - excess)).map (·, minExponent)
  else if maxExponent < exponent then
    if kept = ['0'] then some (kept, maxExponent)
    else
      let excess := (exponent - maxExponent).toNat
      if maxDigits < kept.length + excess then none
      else some (kept ++ List.replicate excess '0', maxExponent)
  else some (kept, exponent)

private def finite? (negative : Bool) (cs : List Char) : Option Decimal128 := do
  let mantissa := cs.takeWhile (· ≠ 'e')
  let exponent ← match cs.dropWhile (· ≠ 'e') with
    | [] => some 0
    | _ :: ds => Text.boundedInt? 10 16 ds
  let whole := mantissa.takeWhile (· ≠ '.')
  let fraction := (mantissa.dropWhile (· ≠ '.')).drop 1
  if (32767 : Int) < fraction.length ∨ exponent - fraction.length < -32768 then none
  let joined := whole ++ fraction
  let significant := joined.dropWhile (· = '0')
  let digits := if significant.isEmpty then joined.take 1 else significant
  let (digits, exponent) ← fit digits (exponent - fraction.length)
  let coefficient ← Text.boundedNat? 10 (1 <<< 128) digits
  some (ofParts negative coefficient exponent)

/-- Reads a decimal that the encoding holds exactly, or the name of infinity or not-a-number. -/
def ofText? (s : String) : Option Decimal128 :=
  let (negative, body) := match s.toList with
    | '-' :: rest => (true, rest)
    | '+' :: rest => (false, rest)
    | cs => (false, cs)
  let name := Text.lowercase (String.ofList body)
  if name = "nan" then some (nan negative false)
  else if name = "snan" then some (nan negative true)
  else if name = "infinity" ∨ name = "inf" then some (infinity negative)
  else finite? negative name.toList

/-- Plain notation for exponents up to zero and numbers that start within six places of the
point, scientific notation otherwise. -/
def toText (d : Decimal128) : String :=
  let n := d.bits.toNat
  let sign := if 1 <<< 127 ≤ n then "-" else ""
  let kind := (n >>> 122) % 32
  if kind = 0x1f then "NaN"
  else if kind = 0x1e then sign ++ "Infinity"
  else
    let wide := (n >>> 125) % 4 = 3
    let biased : Nat := if wide then (n >>> 111) % (1 <<< 14) else (n >>> 113) % (1 <<< 14)
    let exponent : Int := biased + minExponent
    let coefficient : Nat := if wide then (1 <<< 113) + n % (1 <<< 111) else n % (1 <<< 113)
    let digits := (toString coefficient).toList
    let adjusted : Int := exponent + digits.length - 1
    let text (cs : List Char) := String.ofList cs
    sign ++
      if exponent ≤ 0 ∧ -6 ≤ adjusted then
        let places := (-exponent).toNat
        if places = 0 then text digits
        else if digits.length ≤ places then
          "0." ++ text (List.replicate (places - digits.length) '0' ++ digits)
        else
          let whole := digits.length - places
          text (digits.take whole) ++ "." ++ text (digits.drop whole)
      else
        let rest := digits.drop 1
        text (digits.take 1) ++ (if rest.isEmpty then "" else "." ++ text rest) ++ "E" ++
          (if 0 < adjusted then "+" else "") ++ toString adjusted

end Decimal128
end AccessRules
