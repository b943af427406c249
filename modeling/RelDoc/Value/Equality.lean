import RelDoc.Value.Basic

/-!
# Two equalities of values

`Value.same` is the equality of stored values: types have to agree, numbers are compared as
numbers of their type (so a not-a-number double differs from itself and both zeros are equal) and
documents do not depend on the order of their fields. It decides whether two identifiers collide.

`Value.equals` is the equality of filters: numbers of any width are compared as doubles, `null` and
`undefined` are one value, binary data is compared without its subtype, and arrays and documents
are compared member by member under the same rule.
-/

namespace RelDoc
namespace Value

mutual
/-- Equality of stored values. -/
def same : Value → Value → Bool
  | null, null => true
  | undefined, undefined => true
  | boolean a, boolean b => a = b
  | int32 a, int32 b => a = b
  | int64 a, int64 b => a = b
  | double a, double b => a.equal b
  | string a, string b => a = b
  | array a, array b => sameItems a b
  | document a, document b => a.length = b.length && sameFields a b
  | dateTime a, dateTime b => a = b
  | objectId a, objectId b => a = b
  | binary s a, binary t b => s = t && a = b
  | regex p o, regex q r => p = q && o = r
  | dbPointer c a, dbPointer d b => c = d && a = b
  | code a, code b => a = b
  | codeWithScope c a, codeWithScope d b => c = d && (a.length = b.length && sameFields a b)
  | timestamp t i, timestamp u j => t = u && i = j
  | symbol a, symbol b => a = b
  | decimal a, decimal b => a = b
  | minKey, minKey => true
  | maxKey, maxKey => true
  | _, _ => false

/-- Item by item, with nothing left over. -/
def sameItems : List Value → List Value → Bool
  | [], [] => true
  | a :: as, b :: bs => same a b && sameItems as bs
  | _, _ => false

/-- Each field of the first document has an equal field of its name in the second. -/
def sameFields : List (String × Value) → List (String × Value) → Bool
  | [], _ => true
  | (k, a) :: rest, other =>
    (match Dict.get? other k with
      | some b => same a b
      | none => false) && sameFields rest other
end

/-- A number of any width as a double. -/
def number? : Value → Option Double
  | int32 n => some (Double.ofInt n.toInt)
  | int64 n => some (Double.ofInt n.toInt)
  | double d => some d
  | _ => none

/-- `null` and `undefined` count as one value. -/
def isMissing : Value → Bool
  | null | undefined => true
  | _ => false

mutual
/-- Equality as filters see it. -/
def equals : Value → Value → Bool
  | null, b => b.isMissing
  | undefined, b => b.isMissing
  | boolean a, boolean b => a = b
  | int32 n, b => (b.number?.map (Double.ofInt n.toInt).equal).getD false
  | int64 n, b => (b.number?.map (Double.ofInt n.toInt).equal).getD false
  | double d, b => (b.number?.map d.equal).getD false
  | string a, string b => a = b
  | array a, array b => equalsItems a b
  | document a, document b => a.length = b.length && equalsFields a b
  | dateTime a, dateTime b => a = b
  | objectId a, objectId b => a = b
  | binary _ a, binary _ b => a = b
  | regex p o, regex q r => p = q && o = r
  | dbPointer c a, dbPointer d b => c = d && a = b
  | code a, code b => a = b
  | codeWithScope c a, codeWithScope d b => same (codeWithScope c a) (codeWithScope d b)
  | timestamp t i, timestamp u j => t = u && i = j
  | symbol a, symbol b => a = b
  | decimal a, decimal b => a = b
  | minKey, minKey => true
  | maxKey, maxKey => true
  | _, _ => false

/-- Item by item, with nothing left over. -/
def equalsItems : List Value → List Value → Bool
  | [], [] => true
  | a :: as, b :: bs => equals a b && equalsItems as bs
  | _, _ => false

/-- Each field of the first document has an equal field of its name in the second. -/
def equalsFields : List (String × Value) → List (String × Value) → Bool
  | [], _ => true
  | (k, a) :: rest, other =>
    (match Dict.get? other k with
      | some b => equals a b
      | none => false) && equalsFields rest other
end

end Value
end RelDoc
