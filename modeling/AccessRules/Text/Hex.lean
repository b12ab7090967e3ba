import AccessRules.Text.Number

/-! Bytes as pairs of hexadecimal digits: written in lower case, read in either. -/
namespace AccessRules.Text.Hex

def digit (n : Nat) : Char := Char.ofNat (if n < 10 then 48 + n else 87 + n)

def encodeByte (b : UInt8) : List Char := [digit (b.toNat / 16), digit (b.toNat % 16)]

def encode (bytes : List UInt8) : String := String.ofList (bytes.flatMap encodeByte)

def decodeChars : List Char → Option (List UInt8)
  | [] => some []
  | [_] => none
  | a :: b :: rest => do
    let high ← digit? 16 a
    let low ← digit? 16 b
    let bytes ← decodeChars rest
    pure (UInt8.ofNat (16 * high + low) :: bytes)

def decode (s : String) : Option (List UInt8) := decodeChars s.toList

def toNat (bytes : List UInt8) : Nat := bytes.foldl (fun n b => 256 * n + b.toNat) 0

/-- The last `width` big-endian bytes of a number. -/
def ofNat : Nat → Nat → List UInt8
  | 0, _ => []
  | width + 1, n => ofNat width (n / 256) ++ [UInt8.ofNat (n % 256)]

end AccessRules.Text.Hex
