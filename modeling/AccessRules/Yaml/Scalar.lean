import AccessRules.Setting
import AccessRules.Text.Number

/-! The kinds of plain scalars. A plain scalar is null, a truth value or a number if it is written
as one, and text otherwise. -/
namespace AccessRules.Yaml

/-- Digits behind a leading zero are text. -/
def isZeroPadded (s : List Char) : Bool :=
  let body := match s with
    | '-' :: rest => rest
    | '+' :: rest => rest
    | _ => s
  match body with
  | '0' :: c :: rest => (c :: rest).all Text.isDigit
  | _ => false

def radix (s : List Char) : Nat × List Char :=
  match s with
  | '0' :: 'x' :: rest => (16, rest)
  | '0' :: 'o' :: rest => (8, rest)
  | '0' :: 'b' :: rest => (2, rest)
  | _ => (10, s)

def integer? (s : List Char) : Option Int :=
  if isZeroPadded s then none
  else
    let (negative, body) := match s with
      | '-' :: rest => (true, rest)
      | '+' :: rest => (false, rest)
      | _ => (false, s)
    let (base, ds) := radix body
    let limit : Nat := if negative then (1 <<< 127) + 1 else 1 <<< 128
    ((Text.natural? base ds).filter (· < limit)).map fun n => if negative then -(n : Int) else n

/-- Names of infinity and not-a-number, or a finite decimal. -/
def double? (s : String) : Option Double :=
  match s with
  | ".inf" | ".Inf" | ".INF" | "+.inf" | "+.Inf" | "+.INF" => some (Double.infinity false)
  | "-.inf" | "-.Inf" | "-.INF" => some (Double.infinity true)
  | ".nan" | ".NaN" | ".NAN" => some Double.nan
  | _ => if isZeroPadded s.toList then none else (Text.double? s).filter Double.isFinite

def plainSetting (s : String) : Setting :=
  match s with
  | "" | "~" | "null" | "Null" | "NULL" => .null
  | "true" | "True" | "TRUE" => .bool true
  | "false" | "False" | "FALSE" => .bool false
  | _ =>
    match integer? s.toList with
    | some n => .integer n
    | none =>
      match double? s with
      | some x => .double x
      | none => .text s

end AccessRules.Yaml
