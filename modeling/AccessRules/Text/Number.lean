import AccessRules.Double

/-! Numbers written as text: bounded integers in a base up to sixteen, and decimals. -/
namespace AccessRules.Text

def digit? (base : Nat) (c : Char) : Option Nat :=
  let n := c.toNat
  let value : Option Nat :=
    if 48 ≤ n ∧ n ≤ 57 then some (n - 48)
    else if 97 ≤ n ∧ n ≤ 122 then some (n - 87)
    else if 65 ≤ n ∧ n ≤ 90 then some (n - 55)
    else none
  value.filter (· < base)

def isDigit (c : Char) : Bool := (digit? 10 c).isSome

def natural? (base : Nat) : List Char → Option Nat
  | [] => none
  | cs => cs.foldlM (fun n c => (digit? base c).map (base * n + ·)) 0

def boundedNat? (base limit : Nat) (cs : List Char) : Option Nat :=
  let body := match cs with
    | '+' :: rest => rest
    | _ => cs
  (natural? base body).filter (· < limit)

def boundedInt? (base bits : Nat) (cs : List Char) : Option Int :=
  match cs with
  | '-' :: rest =>
    ((natural? base rest).filter (· ≤ 1 <<< (bits - 1))).map fun n => -(n : Int)
  | _ => (boundedNat? base (1 <<< (bits - 1)) cs).map fun n => (n : Int)

def int32? (s : String) : Option Int32 := (boundedInt? 10 32 s.toList).map Int32.ofInt

def int64? (s : String) : Option Int64 := (boundedInt? 10 64 s.toList).map Int64.ofInt

/-- A position in a list: a natural number below `2 ^ 64`. -/
def position? (s : String) : Option Nat := boundedNat? 10 (1 <<< 64) s.toList

private def lower (c : Char) : Char := if 'A' ≤ c ∧ c ≤ 'Z' then Char.ofNat (c.toNat + 32) else c

def lowercase (s : String) : String := String.ofList (s.toList.map lower)

private def exponent? : List Char → Option Int
  | [] => some 0
  | c :: rest =>
    if lower c = 'e' then
      match rest with
      | '-' :: ds => (natural? 10 ds).map fun n => -(n : Int)
      | '+' :: ds => (natural? 10 ds).map fun n => (n : Int)
      | ds => (natural? 10 ds).map fun n => (n : Int)
    else none

/-- An unsigned decimal: digits with at most one point and at least one digit, an optional
exponent, or the name of infinity or not-a-number in any case. -/
private def unsignedDouble? (negative : Bool) (cs : List Char) : Option Double :=
  let name := String.ofList (cs.map lower)
  if name = "inf" ∨ name = "infinity" then some (Double.infinity negative)
  else if name = "nan" then some (if negative then Double.nan.neg else Double.nan)
  else
    let whole := cs.takeWhile isDigit
    let rest := cs.dropWhile isDigit
    let (fraction, rest) := match rest with
      | '.' :: after => (after.takeWhile isDigit, after.dropWhile isDigit)
      | _ => ([], rest)
    match natural? 10 (whole ++ fraction), exponent? rest with
    | some digits, some e => some (Double.ofDecimal negative digits (e - fraction.length))
    | _, _ => none

def double? (s : String) : Option Double :=
  match s.toList with
  | '-' :: rest => unsignedDouble? true rest
  | '+' :: rest => unsignedDouble? false rest
  | cs => unsignedDouble? false cs

end AccessRules.Text
