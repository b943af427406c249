import RelDoc.Value.Equality

/-!
# The order of values

`Value.compare?` orders two values of one kind and leaves values of different kinds, arrays,
documents and the rarer types without an order. `Value.sortOrder` is the order of sorted rows:
first the rank of the type, then `compare?`, and equal where that has no answer.
-/

namespace RelDoc
namespace Value

/-- Byte strings are ordered like words in a dictionary. -/
def compareBytes : List UInt8 → List UInt8 → Ordering
  | [], [] => .eq
  | [], _ :: _ => .lt
  | _ :: _, [] => .gt
  | a :: as, b :: bs => (compare a b).then (compareBytes as bs)

/-- The order of two values that have one. -/
def compare? (a b : Value) : Option Ordering :=
  match a, b with
  | boolean x, boolean y => some (compare x y)
  | string x, string y => some (compare x y)
  | dateTime x, dateTime y => some (compare x.toInt y.toInt)
  | objectId x, objectId y => some (compareBytes x.data y.data)
  | binary _ x, binary _ y => some (compareBytes x y)
  | a, b =>
    if a.isMissing && b.isMissing then some .eq
    else
      match a.number?, b.number? with
      | some x, some y => x.compare? y
      | _, _ => none

/-- The place of a value's type among the types. -/
def rank : Value → Nat
  | null | undefined => 1
  | int32 _ | int64 _ | double _ => 2
  | string _ => 3
  | document _ => 4
  | array _ => 5
  | binary _ _ => 6
  | objectId _ => 7
  | boolean _ => 8
  | dateTime _ => 9
  | _ => 10

def sortOrder (a b : Value) : Ordering :=
  (compare a.rank b.rank).then ((a.compare? b).getD .eq)

end Value
end RelDoc
