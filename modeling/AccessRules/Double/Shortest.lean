import AccessRules.Double

/-! The shortest decimal that reads back as a given binary64 number, and its layout as text. -/
namespace AccessRules.Double

def decimalExponent (num den : Nat) : Int :=
  let reaches (k : Int) : Bool :=
    if 0 ≤ k then decide (den * Nat.pow 10 k.toNat ≤ num)
    else decide (den ≤ num * Nat.pow 10 (-k).toNat)
  let start : Int := (((num.log2 : Int) - den.log2 - 1) * 30103).fdiv 100000 - 1
  if reaches (start + 3) then start + 3
  else if reaches (start + 2) then start + 2
  else if reaches (start + 1) then start + 1
  else start

/-- Four times the bounds of the reals that round to a magnitude, as numerators over the
denominator of `ratio`; the flag tells whether the bounds themselves round to it. -/
def roundingBounds (encoded : Nat) : Nat × Nat × Bool :=
  let (m, _) := significand encoded
  let (num, _) := ratio encoded
  let unit := num / m
  let below := if m = 1 <<< 52 ∧ 1 <<< 53 ≤ encoded then unit else 2 * unit
  (4 * num - below, 4 * num + 2 * unit, m % 2 == 0)

/-- A decimal `n * 10 ^ p` within the rounding bounds and next to the number itself, if the
grid of multiples of `10 ^ p` has one. -/
def onGrid (encoded : Nat) (p : Int) : Option Nat :=
  let (num, den) := ratio encoded
  let (low, high, closed) := roundingBounds encoded
  -- in units of `1 / (4 * den)`, scaled by `up` so that the grid has integer points
  let step := if 0 ≤ p then 4 * den * Nat.pow 10 p.toNat else 4 * den
  let up := if 0 ≤ p then 1 else Nat.pow 10 (-p).toNat
  let value := 4 * num * up
  let inside (n : Nat) : Bool :=
    let x := n * step
    if closed then decide (low * up ≤ x ∧ x ≤ high * up) else decide (low * up < x ∧ x < high * up)
  let floor := value / step
  let toFloor := value - floor * step
  let toCeil := (floor + 1) * step - value
  match inside floor, inside (floor + 1) with
  | true, true =>
    some (if toFloor < toCeil then floor
      else if toCeil < toFloor then floor + 1
      else floor + floor % 2)
  | true, false => some floor
  | false, true => some (floor + 1)
  | false, false => none

/-- The digits and exponent of the shortest decimal that reads back as a positive magnitude. -/
def shortest (encoded : Nat) : Nat × Int :=
  let (num, den) := ratio encoded
  let top := decimalExponent num den
  let tried := (List.range 17).filterMap fun (n : Nat) =>
    (onGrid encoded (top - n)).map fun digits => (digits, top - n)
  trimZeros 17 (tried.headD (0, 0))
where
  trimZeros : Nat → Nat × Int → Nat × Int
    | 0, d => d
    | n + 1, (digits, p) =>
      if digits ≠ 0 ∧ digits % 10 = 0 then trimZeros n (digits / 10, p + 1) else (digits, p)

structure Layout where
  /-- Whether a number whose point stands after this many digits is written without exponent. -/
  positional : Int → Bool
  /-- What follows an integral number. -/
  integral : String

def Layout.plain : Layout := ⟨fun _ => true, ""⟩

private def zeros (n : Nat) : String := String.ofList (List.replicate n '0')

def Layout.write (layout : Layout) (digits : Nat) (p : Int) : String :=
  let text := toString digits
  let point : Int := text.length + p
  if layout.positional point then
    if 0 ≤ p then text ++ zeros p.toNat ++ layout.integral
    else if 0 < point then
      String.ofList (text.toList.take point.toNat) ++ "." ++
        String.ofList (text.toList.drop point.toNat)
    else "0." ++ zeros (-point).toNat ++ text
  else
    let lead := String.ofList (text.toList.take 1)
    let rest := String.ofList (text.toList.drop 1)
    lead ++ (if rest.isEmpty then "" else "." ++ rest) ++ "e" ++ toString (point - 1)

def render (layout : Layout) (x : Double) : String :=
  (if x.negative then "-" else "") ++
    if x.magnitude = 0 then "0" ++ layout.integral
    else
      let (digits, p) := shortest x.magnitude
      layout.write digits p

def display (x : Double) : String :=
  if x.isNaN then "NaN"
  else if x.isInfinite then (if x.negative then "-inf" else "inf")
  else x.render .plain

end AccessRules.Double
