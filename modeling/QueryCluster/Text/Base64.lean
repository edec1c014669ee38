import QueryCluster.Bytes

/-!
# Base 64

Three bytes become four characters, and padding fills up the last four. Reading accepts exactly what
writing produces: unused bits must be zero and padding must be there.
-/
namespace QueryCluster.Text.Base64

def alphabet : List Char :=
  "ABCDEFGHIJKLMNOPQRSTUVWXYZabcdefghijklmnopqrstuvwxyz0123456789+/".toList

def digit (n : Nat) : Char := alphabet[n]?.getD 'A'

def digitValue? (c : Char) : Option Nat :=
  let n := c.toNat
  if 'A' ≤ c ∧ c ≤ 'Z' then some (n - 65)
  else if 'a' ≤ c ∧ c ≤ 'z' then some (n - 71)
  else if '0' ≤ c ∧ c ≤ '9' then some (n + 4)
  else if c = '+' then some 62
  else if c = '/' then some 63
  else none

def encodeChars : Bytes → List Char
  | [] => []
  | [a] => [digit (a.toNat / 4), digit (a.toNat % 4 * 16), '=', '=']
  | [a, b] =>
    [digit (a.toNat / 4), digit (a.toNat % 4 * 16 + b.toNat / 16), digit (b.toNat % 16 * 4), '=']
  | a :: b :: c :: bs =>
    digit (a.toNat / 4) :: digit (a.toNat % 4 * 16 + b.toNat / 16) ::
      digit (b.toNat % 16 * 4 + c.toNat / 64) :: digit (c.toNat % 64) :: encodeChars bs

def encode (bs : Bytes) : String := String.ofList (encodeChars bs)

/-- Bytes of a last group of two or three digits, whose unused bits must be zero. -/
def decodeLast? (digits : List Nat) : Option Bytes :=
  match digits with
  | [a, b] => if b % 16 = 0 then some [UInt8.ofNat (a * 4 + b / 16)] else none
  | [a, b, c] =>
    if c % 4 = 0 then
      some [UInt8.ofNat (a * 4 + b / 16), UInt8.ofNat (b % 16 * 16 + c / 4)]
    else none
  | _ => none

def decodeChars? : List Char → Option Bytes
  | [] => some []
  | [a, b, '=', '='] => do decodeLast? [← digitValue? a, ← digitValue? b]
  | [a, b, c, '='] => do decodeLast? [← digitValue? a, ← digitValue? b, ← digitValue? c]
  | a :: b :: c :: d :: cs => do
    let w ← digitValue? a
    let x ← digitValue? b
    let y ← digitValue? c
    let z ← digitValue? d
    return UInt8.ofNat (w * 4 + x / 16) :: UInt8.ofNat (x % 16 * 16 + y / 4) ::
      UInt8.ofNat (y % 4 * 64 + z) :: (← decodeChars? cs)
  | _ => none

def decode? (s : String) : Option Bytes := decodeChars? s.toList

end QueryCluster.Text.Base64
