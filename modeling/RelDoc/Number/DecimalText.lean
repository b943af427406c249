import RelDoc.Data.Bytes

/-!
# 128-bit decimal numbers

A decimal number of 128 bits in the binary integer encoding: a sign, an exponent of 14 bits with
the bias 6176 and an integer coefficient. A coefficient beyond 34 digits counts as zero.
`Decimal128.text` writes it positionally while the exponent is not positive and the first digit is
at most six places behind the point, and with an exponent otherwise.
-/

namespace RelDoc

/-- What the bits of a decimal number mean. -/
inductive Decimal128 where
  | notANumber
  | infinite (negative : Bool)
  | finite (negative : Bool) (coefficient : Nat) (exponent : Int)
deriving DecidableEq

namespace Decimal128

/-- The number whose bytes, the least significant first, are given. -/
def littleEndian : List UInt8 → Nat
  | [] => 0
  | b :: rest => b.toNat + 256 * littleEndian rest

/-- The largest coefficient, 34 nines. -/
def maxCoefficient : Nat := Nat.pow 10 34 - 1

def ofBytes (data : Bytes 16) : Decimal128 :=
  let n := littleEndian data.data
  let negative : Bool := Nat.pow 2 127 ≤ n
  let combination := n / Nat.pow 2 122 % 32
  if combination = 31 then .notANumber
  else if combination = 30 then .infinite negative
  else if combination / 8 = 3 then .finite negative 0 ((n / Nat.pow 2 111 % Nat.pow 2 14 : Nat) - 6176)
  else
    let coefficient := n % Nat.pow 2 113
    .finite negative (if coefficient ≤ maxCoefficient then coefficient else 0) ((n / Nat.pow 2 113 % Nat.pow 2 14 : Nat) - 6176)

/-- The digits of a coefficient with the point `places` digits from the right. -/
def pointed (digits : List Char) (places : Nat) : String :=
  if places = 0 then String.ofList digits
  else
    let filled := List.replicate (places + 1 - digits.length) '0' ++ digits
    let whole := filled.length - places
    String.ofList (filled.take whole) ++ "." ++ String.ofList (filled.drop whole)

def text : Decimal128 → String
  | notANumber => "NaN"
  | infinite negative => if negative then "-Infinity" else "Infinity"
  | finite negative coefficient exponent =>
    let sign := if negative then "-" else ""
    let digits := Nat.toDigits 10 coefficient
    let adjusted := exponent + digits.length - 1
    if exponent ≤ 0 ∧ -6 ≤ adjusted then sign ++ pointed digits (-exponent).toNat
    else
      let fraction := digits.drop 1
      sign ++ String.ofList (digits.take 1) ++ (if fraction.isEmpty then "" else "." ++ String.ofList fraction) ++
        "E" ++ (if 0 ≤ adjusted then "+" else "") ++ toString adjusted

end Decimal128
end RelDoc
