import RelDoc.Number.Double

/-!
# The fewest decimal digits that read back

A finite double is written with the fewest significant digits that still round to it, and among
those with the digits nearest to it. `Double.shortest` decodes the number to `m * 2 ^ q`, takes
the interval of reals that round to it (its ends included when `m` is even) and tries grids of
1, 2, … 17 digits: if any point of a grid lies in the interval, so does one of the two neighbours
of the number on that grid.
-/

namespace RelDoc

/-- Which of two equally near decimals is taken. -/
inductive Tie where
  /-- The one whose last digit is even. -/
  | even
  /-- The larger one. -/
  | up
deriving DecidableEq

/-- A positive decimal `digits * 10 ^ exponent`. -/
structure Decimal where
  digits : Nat
  exponent : Int
deriving DecidableEq

namespace Decimal

/-- Moves trailing zeros of the digits into the exponent; `fuel` bounds their number. -/
def trimmed : Nat → Decimal → Decimal
  | 0, d => d
  | fuel + 1, d =>
    if d.digits ≠ 0 ∧ d.digits % 10 = 0 then trimmed fuel ⟨d.digits / 10, d.exponent + 1⟩ else d

end Decimal

namespace Double

structure Ratio where
  num : Nat
  den : Nat

def digitCount (n : Nat) : Nat := (Nat.toDigits 10 n).length

/-- The power `k` with `10 ^ (k - 1) ≤ r < 10 ^ k`, from the digit counts of both terms, which
leave two candidates. -/
def Ratio.decade (r : Ratio) : Int :=
  let guess : Int := (digitCount r.num : Int) - digitCount r.den
  let reached : Bool := if 0 ≤ guess then Nat.pow 10 guess.toNat * r.den ≤ r.num else r.den ≤ Nat.pow 10 (-guess).toNat * r.num
  if reached then guess + 1 else guess

/-- The reals that round to a number, as quarters of its last place: `low / den`, `high / den`
around `mid / den`. -/
structure Interval where
  low : Nat
  mid : Nat
  high : Nat
  den : Nat
  closed : Bool

def interval (d : Double) : Interval :=
  let m := d.significand
  let e := d.exponent - 2
  let up := if 0 ≤ e then Nat.pow 2 e.toNat else 1
  let den := if 0 ≤ e then 1 else Nat.pow 2 (-e).toNat
  { low := (4 * m - (if d.isStep then 1 else 2)) * up
    mid := 4 * m * up
    high := (4 * m + 2) * up
    den
    closed := m % 2 = 0 }

/-- Is `n * 10 ^ exponent` in the interval? -/
def Interval.contains (i : Interval) (n : Nat) (exponent : Int) : Bool :=
  let point := if 0 ≤ exponent then n * Nat.pow 10 exponent.toNat * i.den else n * i.den
  let scale := if 0 ≤ exponent then 1 else Nat.pow 10 (-exponent).toNat
  if i.closed then i.low * scale ≤ point && point ≤ i.high * scale
  else i.low * scale < point && point < i.high * scale

/-- The nearest point of the grid of step `10 ^ exponent` inside the interval, if one is there. -/
def Interval.nearest? (i : Interval) (tie : Tie) (exponent : Int) : Option Nat :=
  let num := if 0 ≤ exponent then i.mid else i.mid * Nat.pow 10 (-exponent).toNat
  let den := if 0 ≤ exponent then i.den * Nat.pow 10 exponent.toNat else i.den
  let below := num / den
  let rest := num % den
  let lowHit := 0 < below && i.contains below exponent
  let highHit := i.contains (below + 1) exponent
  let preferHigh := den < 2 * rest || (2 * rest = den && (tie = .up || below % 2 = 1))
  if lowHit && highHit then some (if preferHigh then below + 1 else below)
  else if lowHit then some below
  else if highHit then some (below + 1)
  else none

/-- Tries the grids from `count` digits on; seventeen digits always suffice, so the last line is
not reached for a finite number. -/
def Interval.search (i : Interval) (tie : Tie) (decade : Int) : Nat → Nat → Decimal
  | fuel + 1, count =>
    let exponent := decade - count
    match i.nearest? tie exponent with
    | some digits => ⟨digits, exponent⟩
    | none => search i tie decade fuel (count + 1)
  | 0, _ => ⟨0, 0⟩

/-- The shortest decimal that rounds to the absolute value of a finite number. -/
def shortest (tie : Tie) (d : Double) : Decimal :=
  if d.isZero then ⟨0, 0⟩
  else
    let i := d.interval
    let decade := Ratio.decade ⟨i.mid, i.den⟩
    (i.search tie decade 20 1).trimmed 20

end Double
end RelDoc
