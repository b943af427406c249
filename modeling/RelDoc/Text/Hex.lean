/-!
# Hexadecimal text

Bytes as pairs of lowercase hexadecimal digits, and back.
-/

namespace RelDoc
namespace Hex

/-- The lowercase digit of a number below 16. -/
def digit (n : Nat) : Char := "0123456789abcdef".toList.getD n '0'

/-- The number of a hexadecimal digit of either case. -/
def digitValue? (c : Char) : Option Nat :=
  if '0' ≤ c ∧ c ≤ '9' then some (c.toNat - '0'.toNat)
  else if 'a' ≤ c ∧ c ≤ 'f' then some (c.toNat - 'a'.toNat + 10)
  else if 'A' ≤ c ∧ c ≤ 'F' then some (c.toNat - 'A'.toNat + 10)
  else none

/-- Two digits for each byte. -/
def encodeChars : List UInt8 → List Char
  | [] => []
  | b :: rest => digit (b.toNat / 16) :: digit (b.toNat % 16) :: encodeChars rest

def encode (data : List UInt8) : String := String.ofList (encodeChars data)

/-- Reads pairs of digits. -/
def decodeChars? : List Char → Option (List UInt8)
  | [] => some []
  | [_] => none
  | a :: b :: rest => do
    let high ← digitValue? a
    let low ← digitValue? b
    let more ← decodeChars? rest
    return UInt8.ofNat (16 * high + low) :: more

def decode? (s : String) : Option (List UInt8) := decodeChars? s.toList

/-- Lowercase hexadecimal digits of a number, without leading zeros. -/
def ofNat (n : Nat) : String := String.ofList (Nat.toDigits 16 n)

end Hex
end RelDoc
