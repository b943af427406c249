import RelDoc.Error

/-!
# Scalars as wire values

A `Codec` turns the scalars of statements into wire values and back. `Codec.exact` keeps every type
as it is: integers keep their width, a unique identifier becomes binary data of subtype 4, bytes
become plain binary data, and instants are rounded down to whole milliseconds.
-/

namespace RelDoc

/-- Conversions between scalars and wire values. -/
structure Codec where
  encode : Scalar → Except Error Value
  decode : Value → Except Error Scalar

namespace Codec

def toWire : Scalar → Value
  | .boolean b => .boolean b
  | .int32 n => .int32 n
  | .int64 n => .int64 n
  | .double d => .double d
  | .string s => .string s
  | .instant t => .dateTime (Int64.ofInt t.toMillis)
  | .uuid id => .binary 4 id.data
  | .objectId id => .objectId id
  | .bytes data => .binary 0 data

/-- The scalar of binary data: a unique identifier or plain bytes. -/
def ofBinary (subtype : UInt8) (data : List UInt8) : Except Error Scalar :=
  if subtype = 4 then
    match Bytes.ofList? 16 data with
    | some id => .ok (.uuid id)
    | none => .error (.uuidLength data.length)
  else if subtype = 0 then .ok (.bytes data)
  else .error (.unsupported (.binarySubtype subtype))

/-- The scalar of a wire value, if its type has one. -/
def ofWire : Value → Except Error Scalar
  | .boolean b => .ok (.boolean b)
  | .int32 n => .ok (.int32 n)
  | .int64 n => .ok (.int64 n)
  | .double d => .ok (.double d)
  | .string s => .ok (.string s)
  | .dateTime millis => .ok (.instant (.ofMillis millis.toInt))
  | .objectId id => .ok (.objectId id)
  | .binary subtype data => ofBinary subtype data
  | v => .error (.unsupported (.valueKind v.kind))

/-- The codec that keeps every type as it is. -/
def exact : Codec where
  encode v := .ok (toWire v)
  decode := ofWire

end Codec
end RelDoc
