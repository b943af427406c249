/-!
# Double precision numbers by their bits

A `Double` is the 64 bits of a binary floating point number, so that the sign and payload of a
not-a-number survive. Order and equality are read off the bits: the bits below the sign grow with
the absolute value, and a set sign turns the order round, so `position?` is an integer that grows
with the number, is `0` for both zeros and is missing exactly for a not-a-number.

`ofInt` is the double nearest to an integer, a half going to the even neighbour; integers up to
`2 ^ 53` in absolute value are kept exactly.

Powers are written `Nat.pow`, which means the same whatever instances of `^` are in scope.
-/

namespace RelDoc

structure Double where
  bits : UInt64
deriving DecidableEq

namespace Double

def isNegative (d : Double) : Bool := Nat.pow 2 63 ≤ d.bits.toNat

/-- The bits below the sign: exponent, then fraction. -/
def magnitude (d : Double) : Nat := d.bits.toNat % Nat.pow 2 63

/-- The magnitude of the infinities; everything above it is not a number. -/
def infinite : Nat := 0x7ff * Nat.pow 2 52

def isNaN (d : Double) : Bool := infinite < d.magnitude

def isInfinite (d : Double) : Bool := d.magnitude = infinite

/-- An integer that grows with the number; none for a not-a-number. -/
def position? (d : Double) : Option Int :=
  if d.isNaN then none else some (if d.isNegative then -(d.magnitude : Int) else d.magnitude)

/-- The order of two numbers; a not-a-number has no place in it. -/
def compare? (a b : Double) : Option Ordering :=
  match a.position?, b.position? with
  | some x, some y => some (compare x y)
  | _, _ => none

/-- Numeric equality: both zeros are equal and a not-a-number differs from itself. -/
def equal (a b : Double) : Bool := a.compare? b = some .eq

def isZero (d : Double) : Bool := d.magnitude = 0

/-- A finite number without its sign is `significand * 2 ^ exponent`. -/
def significand (d : Double) : Nat :=
  let fraction := d.magnitude % Nat.pow 2 52
  if d.magnitude / Nat.pow 2 52 = 0 then fraction else Nat.pow 2 52 + fraction

def exponent (d : Double) : Int :=
  let biased : Nat := d.magnitude / Nat.pow 2 52
  if biased = 0 then -1074 else (biased : Int) - 1075

/-- Does the number below this one lie half as far away as the one above? So it is at the powers
of two, the smallest normal number excepted. -/
def isStep (d : Double) : Bool := d.magnitude % Nat.pow 2 52 = 0 && 1 < d.magnitude / Nat.pow 2 52

/-- `n / 2 ^ shift` rounded to the nearest integer, a half to the even one. -/
def roundShift (n shift : Nat) : Nat :=
  let quotient := n / Nat.pow 2 shift
  let remainder := n % Nat.pow 2 shift
  let half := Nat.pow 2 shift / 2
  if half < remainder || (remainder = half && 0 < shift && quotient % 2 = 1) then quotient + 1 else quotient

/-- The magnitude of the double nearest to a natural number below `2 ^ 1023`. A significand that
rounds up to `2 ^ 53` carries into the exponent. -/
def magnitudeOfNat (n : Nat) : Nat :=
  if n = 0 then 0
  else
    let top := n.log2
    let significand := if top ≤ 52 then n * Nat.pow 2 (52 - top) else roundShift n (top - 52)
    (top + 1023) * Nat.pow 2 52 + (significand - Nat.pow 2 52)

def ofInt (n : Int) : Double :=
  ⟨UInt64.ofNat ((if n < 0 then Nat.pow 2 63 else 0) + magnitudeOfNat n.natAbs)⟩

end Double
end RelDoc
