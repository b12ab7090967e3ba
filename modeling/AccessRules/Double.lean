/-! Binary64 numbers as their 64 bits. Order, equality and rounding are exact integer
computations on the bits, so every statement about them is one about integers. -/
namespace AccessRules

/-- A binary64 number, given by its IEEE 754 interchange encoding. -/
structure Double where
  bits : UInt64
  deriving DecidableEq, Repr, Inhabited

namespace Double

def infinityBits : Nat := 0x7ff <<< 52

def negative (x : Double) : Bool := decide (1 <<< 63 ≤ x.bits.toNat)

def magnitude (x : Double) : Nat := x.bits.toNat % (1 <<< 63)

def isNaN (x : Double) : Bool := decide (infinityBits < x.magnitude)

def isInfinite (x : Double) : Bool := decide (x.magnitude = infinityBits)

def isFinite (x : Double) : Bool := decide (x.magnitude < infinityBits)

def ofMagnitude (negative : Bool) (magnitude : Nat) : Double :=
  ⟨UInt64.ofNat (if negative then (1 <<< 63) + magnitude else magnitude)⟩

def infinity (negative : Bool) : Double := ofMagnitude negative infinityBits

def zero (negative : Bool) : Double := ofMagnitude negative 0

def nan : Double := ⟨0x7ff8000000000000⟩

def neg (x : Double) : Double := ofMagnitude (!x.negative) x.magnitude

/-- The position of a number in the order of binary64; both zeros have position zero. -/
def rank (x : Double) : Int := if x.negative then -(x.magnitude : Int) else x.magnitude

/-- Numeric comparison; a not-a-number compares with nothing. -/
def compare? (x y : Double) : Option Ordering :=
  if x.isNaN || y.isNaN then none else some (compare x.rank y.rank)

def numEq (x y : Double) : Bool := x.compare? y == some .eq

/-- A finite magnitude `encoded` has the value `m * 2 ^ q` for `(m, q) = significand encoded`. -/
def significand (encoded : Nat) : Nat × Int :=
  let exponent : Nat := encoded >>> 52
  let fraction : Nat := encoded % (1 <<< 52)
  if exponent = 0 then (fraction, -1074) else ((1 <<< 52) + fraction, (exponent : Int) - 1075)

def ratio (encoded : Nat) : Nat × Nat :=
  let (m, q) := significand encoded
  if 0 ≤ q then (m <<< q.toNat, 1) else (m, 1 <<< (-q).toNat)

/-- `num / den` rounded to an integer, a half going to the even neighbour. -/
def roundQuotient (num den : Nat) : Nat :=
  let whole := num / den
  let rest := 2 * (num % den)
  if rest < den then whole
  else if den < rest then whole + 1
  else whole + whole % 2

def lastPlace (num den : Nat) : Int :=
  let guess : Int := (num.log2 : Int) - den.log2
  let below : Bool :=
    if 0 ≤ guess then decide (num < den <<< guess.toNat)
    else decide (num <<< (-guess).toNat < den)
  max (-1074) ((if below then guess - 1 else guess) - 52)

/-- The magnitude of the binary64 number nearest to `num / den`, a tie going to the even one and
everything past the largest number to infinity. -/
def nearest (num den : Nat) : Nat :=
  if num = 0 then 0
  else
    let q := lastPlace num den
    let m := if 0 ≤ q then roundQuotient num (den <<< q.toNat)
      else roundQuotient (num <<< (-q).toNat) den
    min infinityBits (((q + 1074).toNat <<< 52) + m)

def ofInt (n : Int) : Double := ofMagnitude (decide (n < 0)) (nearest n.natAbs 1)

def ofDecimal (negative : Bool) (digits : Nat) (exponent : Int) : Double :=
  let places : Int := (Nat.toDigits 10 digits).length
  ofMagnitude negative <|
    if digits = 0 then 0
    else if 400 < places + exponent then infinityBits
    else if places + exponent < -400 then 0
    else if 0 ≤ exponent then nearest (digits * Nat.pow 10 exponent.toNat) 1
    else nearest digits (Nat.pow 10 (-exponent).toNat)

def mulMagnitude (x : Double) (y : Nat) : Double :=
  let (a, b) := ratio x.magnitude
  let (c, d) := ratio y
  ofMagnitude x.negative (nearest (a * c) (b * d))

def divMagnitude (x : Double) (y : Nat) : Double :=
  let (a, b) := ratio x.magnitude
  let (c, d) := ratio y
  ofMagnitude x.negative (nearest (a * d) (b * c))

def isNegligible (x : Double) : Bool := decide (x.magnitude < 0x3cb <<< 52)

end Double
end AccessRules
