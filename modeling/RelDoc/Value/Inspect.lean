import RelDoc.Text.Escaped
import RelDoc.Value.Display

/-!
# Values inspected

The exact text of a value, with the name of its type and nothing hidden in its strings, as the
refusal of a delete limit quotes it.
-/

namespace RelDoc

def binarySubtypeName (subtype : UInt8) : String :=
  match subtype.toNat with
  | 0 => "Generic"
  | 1 => "Function"
  | 2 => "BinaryOld"
  | 3 => "UuidOld"
  | 4 => "Uuid"
  | 5 => "Md5"
  | 6 => "Encrypted"
  | 7 => "Column"
  | 8 => "Sensitive"
  | 9 => "Vector"
  | n => (if n < 128 then "Reserved(" else "UserDefined(") ++ toString n ++ ")"

namespace Value

/-- Doubles keep a decimal and are positional from `10 ^ -4` up to below `10 ^ 16`. -/
def inspectLayout : Layout :=
  { tie := .up, positional := some (-4, 16), keepsPoint := true, signsExponent := false }

/-- Numbers separated by commas, between brackets. -/
def inspectBytes (data : List UInt8) : String :=
  "[" ++ ", ".intercalate (data.map fun b => toString b.toNat) ++ "]"

mutual
def inspect : Value → String
  | null => "Null"
  | undefined => "Undefined"
  | boolean b => if b then "Boolean(true)" else "Boolean(false)"
  | int32 n => "Int32(" ++ toString n.toInt ++ ")"
  | int64 n => "Int64(" ++ toString n.toInt ++ ")"
  | double d => "Double(" ++ inspectLayout.text d ++ ")"
  | string s => "String(" ++ Escaped.encode s ++ ")"
  | array items => "Array([" ++ inspectItems true items ++ "])"
  | document fields => "Document(\x7b" ++ inspectFields true fields ++ "\x7d)"
  | dateTime millis => "DateTime(" ++ momentText millis.toInt ++ ")"
  | objectId id => "ObjectId(\"" ++ Hex.encode id.data ++ "\")"
  | binary subtype data =>
    "Binary \x7b subtype: " ++ binarySubtypeName subtype ++ ", bytes: " ++ inspectBytes data ++ " \x7d"
  | regex pattern options =>
    "Regex \x7b pattern: " ++ Escaped.encode pattern ++ ", options: " ++ Escaped.encode options ++ " \x7d"
  | dbPointer collection id =>
    "DbPointer \x7b namespace: " ++ Escaped.encode collection ++ ", id: ObjectId(\"" ++ Hex.encode id.data ++ "\") \x7d"
  | code source => "JavaScriptCode(" ++ Escaped.encode source ++ ")"
  | codeWithScope source scope =>
    "JavaScriptCodeWithScope \x7b code: " ++ Escaped.encode source ++ ", scope: Document(\x7b" ++
      inspectFields true scope ++ "\x7d) \x7d"
  | timestamp time increment =>
    "Timestamp \x7b time: " ++ toString time.toNat ++ ", increment: " ++ toString increment.toNat ++ " \x7d"
  | symbol s => "Symbol(" ++ Escaped.encode s ++ ")"
  | decimal data => "Decimal128(" ++ Hex.encode data.data ++ ")"
  | minKey => "MinKey"
  | maxKey => "MaxKey"

def inspectItems (first : Bool) : List Value → String
  | [] => ""
  | v :: rest => (if first then "" else ", ") ++ inspect v ++ inspectItems false rest

def inspectFields (first : Bool) : List (String × Value) → String
  | [] => ""
  | (k, v) :: rest =>
    (if first then "" else ", ") ++ Escaped.encode k ++ ": " ++ inspect v ++ inspectFields false rest
end

end Value
end RelDoc
