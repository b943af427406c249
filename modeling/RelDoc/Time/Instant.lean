/-!
# Instants

Points in time with nanosecond precision, from the first instant of the year -262143 to the last
of the year 262142. A leap second is part of the second before it, which then has two thousand
million nanoseconds, and any second may have one. Going to whole milliseconds rounds towards the
past; a leap second has no milliseconds of its own there and gets those of the second that follows
it. Coming from milliseconds beyond the range gives the nearest end of it.
-/

namespace RelDoc

/-- An instant as seconds from the epoch, rounded down, and nanoseconds within the second. Those of a
leap second that follows it are counted on. -/
structure Instant where
  seconds : Int
  nanos : Nat
  earliest_le : -8334601228800 ≤ seconds := by omega
  le_latest : seconds ≤ 8210266876799 := by omega
  nanos_lt : nanos < 2000000000 := by omega
deriving DecidableEq

namespace Instant

/-- The instant of the given parts, if they are in range. A leap second is taken at the end of a
minute only. -/
def ofParts? (seconds : Int) (nanos : Nat) : Option Instant :=
  if h : -8334601228800 ≤ seconds ∧ seconds ≤ 8210266876799 ∧ nanos < 2000000000 then
    if nanos < 1000000000 ∨ seconds % 60 = 59 then some ⟨seconds, nanos, h.1, h.2.1, h.2.2⟩ else none
  else none

/-- Is the instant in a leap second? -/
def isLeap (t : Instant) : Bool := 1000000000 ≤ t.nanos

def earliest : Instant := { seconds := -8334601228800, nanos := 0 }

def latest : Instant := { seconds := 8210266876799, nanos := 999999999 }

/-- Whole milliseconds since the epoch, rounded down. Those of a leap second are the ones of the
next second. -/
def toMillis (t : Instant) : Int := t.seconds * 1000 + (t.nanos / 1000000 : Nat)

/-- The instant a number of milliseconds after the epoch, or the nearest end of the range. -/
def ofMillis (millis : Int) : Instant :=
  if h : millis < -8334601228800000 then earliest
  else if h' : 8210266876799999 < millis then latest
  else
    { seconds := millis / 1000
      nanos := (millis % 1000).toNat * 1000000 }

end Instant
end RelDoc
