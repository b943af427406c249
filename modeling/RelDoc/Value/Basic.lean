import RelDoc.Data.Bytes
import RelDoc.Data.Dict
import RelDoc.Number.Double

/-!
# Wire values

The values a document database stores and exchanges. A `Document` is an ordered dictionary of
values; documents built by `Dict.insert` have distinct names, and `Value.Distinct` says that a
value is made of such documents all the way down.
-/

namespace RelDoc

inductive Value where
  | null
  | undefined
  | boolean (b : Bool)
  | int32 (n : Int32)
  | int64 (n : Int64)
  | double (d : Double)
  | string (s : String)
  | array (items : List Value)
  | document (fields : List (String × Value))
  /-- Milliseconds since the epoch. -/
  | dateTime (millis : Int64)
  | objectId (id : ObjectId)
  | binary (subtype : UInt8) (data : List UInt8)
  | regex (pattern options : String)
  /-- A document of a collection; stored by old clients only. -/
  | dbPointer (collection : String) (id : ObjectId)
  | code (source : String)
  | codeWithScope (source : String) (scope : List (String × Value))
  | timestamp (time increment : UInt32)
  | symbol (s : String)
  /-- The 16 bytes of a decimal number, the least significant first. -/
  | decimal (data : Bytes 16)
  | minKey
  | maxKey

instance : Inhabited Value := ⟨.null⟩

abbrev Document := Dict Value

/-- The field that holds a document's primary key. -/
def idField : String := "_id"

namespace Value

mutual
/-- Every document inside the value has distinct names. -/
def Distinct : Value → Prop
  | array items => DistinctItems items
  | document fields => (fields.map Prod.fst).Nodup ∧ DistinctFields fields
  | codeWithScope _ scope => (scope.map Prod.fst).Nodup ∧ DistinctFields scope
  | _ => True

def DistinctItems : List Value → Prop
  | [] => True
  | v :: rest => Distinct v ∧ DistinctItems rest

def DistinctFields : List (String × Value) → Prop
  | [] => True
  | (_, v) :: rest => Distinct v ∧ DistinctFields rest
end

/-- The types of values, as far as a codec or a reader tells them apart. -/
inductive Kind where
  | null | undefined | boolean | int32 | int64 | double | string | array | document | dateTime
  | objectId | binary | regex | dbPointer | code | codeWithScope | timestamp | symbol | decimal | minKey | maxKey
deriving DecidableEq

def kind : Value → Kind
  | null => .null
  | undefined => .undefined
  | boolean _ => .boolean
  | int32 _ => .int32
  | int64 _ => .int64
  | double _ => .double
  | string _ => .string
  | array _ => .array
  | document _ => .document
  | dateTime _ => .dateTime
  | objectId _ => .objectId
  | binary _ _ => .binary
  | regex _ _ => .regex
  | dbPointer _ _ => .dbPointer
  | code _ => .code
  | codeWithScope _ _ => .codeWithScope
  | timestamp _ _ => .timestamp
  | symbol _ => .symbol
  | decimal _ => .decimal
  | minKey => .minKey
  | maxKey => .maxKey

def document? : Value → Option Document
  | document fields => some fields
  | _ => none

def string? : Value → Option String
  | string s => some s
  | _ => none

/-- Neither missing nor a container: what a literal may hold. -/
def isScalar : Value → Bool
  | null | undefined | array _ | document _ => false
  | _ => true

end Value
end RelDoc
