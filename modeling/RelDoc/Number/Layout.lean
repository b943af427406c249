import RelDoc.Number.Shortest

/-!
# Writing a double

A `Layout` says how the shortest digits of a double are laid out: up to which exponents
positionally, whether a whole number keeps `.0`, how an exponent is signed and which of two
equally near decimals is taken. Values of this type stand beside the formats that use them.
-/

namespace RelDoc

/-- How a double is laid out. -/
structure Layout where
  /-- Which of two equally near shortest decimals is written. -/
  tie : Tie
  /-- Positional notation for scientific exponents `e` with `low ≤ e < high`; always if absent. -/
  positional : Option (Int × Int)
  /-- Does a whole number written positionally end in `.0`? -/
  keepsPoint : Bool
  /-- Is a positive exponent written with `+`? -/
  signsExponent : Bool

namespace Layout

/-- Places the point in the digits of a number whose scientific exponent is `e`. -/
def positionalText (l : Layout) (digits : List Char) (e : Int) : String :=
  let whole := e + 1
  if whole ≤ 0 then "0." ++ String.ofList (List.replicate (-whole).toNat '0' ++ digits)
  else
    let n := whole.toNat
    if digits.length ≤ n then
      String.ofList (digits ++ List.replicate (n - digits.length) '0') ++ (if l.keepsPoint then ".0" else "")
    else String.ofList (digits.take n) ++ "." ++ String.ofList (digits.drop n)

/-- One digit before the point, then the exponent. -/
def scientificText (l : Layout) (digits : List Char) (e : Int) : String :=
  let fraction := digits.drop 1
  String.ofList (digits.take 1) ++ (if fraction.isEmpty then "" else "." ++ String.ofList fraction) ++ "e" ++
    (if l.signsExponent && 0 ≤ e then "+" else "") ++ toString e

/-- A decimal laid out; zero is written positionally. -/
def decimalText (l : Layout) (d : Decimal) : String :=
  let digits := Nat.toDigits 10 d.digits
  let e := if d.digits = 0 then 0 else d.exponent + digits.length - 1
  match l.positional with
  | none => l.positionalText digits e
  | some (low, high) => if low ≤ e ∧ e < high then l.positionalText digits e else l.scientificText digits e

/-- The text of a double; infinities and not-a-numbers are spelled `inf` and `NaN`. -/
def text (l : Layout) (d : Double) : String :=
  if d.isNaN then "NaN"
  else
    let sign := if d.isNegative then "-" else ""
    if d.isInfinite then sign ++ "inf" else sign ++ l.decimalText (d.shortest l.tie)

end Layout
end RelDoc
