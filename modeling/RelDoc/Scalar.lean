import RelDoc.Data.Bytes
import RelDoc.Number.Double
import RelDoc.Time.Instant

/-!
# Scalars of statements

The typed values that statements carry as literals and that callers supply as parameters. None of
them is null.
-/

namespace RelDoc

inductive Scalar where
  | boolean (b : Bool)
  | int32 (n : Int32)
  | int64 (n : Int64)
  | double (d : Double)
  | string (s : String)
  | instant (t : Instant)
  | uuid (id : Uuid)
  | objectId (id : ObjectId)
  | bytes (data : List UInt8)
deriving DecidableEq

namespace Scalar

def typeName : Scalar → String
  | boolean _ => "boolean"
  | int32 _ => "int32"
  | int64 _ => "int64"
  | double _ => "double"
  | string _ => "string"
  | instant _ => "datetime"
  | uuid _ => "uuid"
  | objectId _ => "objectId"
  | bytes _ => "bytes"

/-- Equality of scalars of one type, doubles compared as numbers. -/
def equal : Scalar → Scalar → Bool
  | double a, double b => a.equal b
  | a, b => a = b

end Scalar
end RelDoc
