import RelDoc.Json.Basic
import RelDoc.Number.DecimalText
import RelDoc.Text.Base64
import RelDoc.Time.Calendar
import RelDoc.Value.Basic

/-!
# Extended JSON

The relaxed extended JSON of a value: strings, numbers, booleans, arrays and documents are plain
JSON, and every other type is an object whose keys begin with a dollar sign. Dates before the epoch
are a number of milliseconds; dates after the year 9999 are written as the last instant of it.
-/

namespace RelDoc
namespace Value

def wrapped (key : String) (v : Json) : Json := .object [(key, v)]

/-- A date from the epoch on as a timestamp. -/
def timestampText (millis : Int) : String :=
  let m := Moment.ofMillis millis
  if 9999 < m.date.year then "9999-12-31T23:59:59.999999999Z"
  else
    let fraction := m.clock.fraction
    m.date.yearText ++ "-" ++ padded 2 m.date.month ++ "-" ++ padded 2 m.date.day ++ "T" ++
      padded 2 m.clock.hour ++ ":" ++ padded 2 m.clock.minute ++ ":" ++ padded 2 m.clock.second ++
      (if fraction.isEmpty then "" else "." ++ String.ofList fraction) ++ "Z"

/-- Not-a-numbers and infinities have names; other doubles are JSON numbers. -/
def extendedDouble (d : Double) : Json :=
  if d.isNaN then wrapped "$numberDouble" (.string (if d.isNegative then "-NaN" else "NaN"))
  else if d.isInfinite then wrapped "$numberDouble" (.string (if d.isNegative then "-Infinity" else "Infinity"))
  else .double d

mutual
def extended : Value → Json
  | null => .null
  | undefined => wrapped "$undefined" (.bool true)
  | boolean b => .bool b
  | int32 n => .integer n.toInt
  | int64 n => .integer n.toInt
  | double d => extendedDouble d
  | string s => .string s
  | array items => .array (extendedItems items)
  | document fields => .object (extendedFields fields)
  | dateTime millis =>
    wrapped "$date" (if 0 ≤ millis.toInt then .string (timestampText millis.toInt)
      else wrapped "$numberLong" (.string (toString millis.toInt)))
  | objectId id => wrapped "$oid" (.string (Hex.encode id.data))
  | binary subtype data =>
    wrapped "$binary" (.object [("base64", .string (Base64.encode data)),
      ("subType", .string (Hex.encode [subtype]))])
  | regex pattern options =>
    wrapped "$regularExpression" (.object [("pattern", .string pattern),
      ("options", .string (String.ofList (options.toList.mergeSort fun a b => a ≤ b)))])
  | dbPointer collection id =>
    wrapped "$dbPointer" (.object [("$ref", .string collection),
      ("$id", wrapped "$oid" (.string (Hex.encode id.data)))])
  | code source => wrapped "$code" (.string source)
  | codeWithScope source scope =>
    .object [("$code", .string source), ("$scope", .object (extendedFields scope))]
  | timestamp time increment =>
    wrapped "$timestamp" (.object [("t", .integer time.toNat), ("i", .integer increment.toNat)])
  | symbol s => wrapped "$symbol" (.string s)
  | decimal data => wrapped "$numberDecimal" (.string (Decimal128.ofBytes data).text)
  | minKey => wrapped "$minKey" (.integer 1)
  | maxKey => wrapped "$maxKey" (.integer 1)

def extendedItems : List Value → List Json
  | [] => []
  | v :: rest => extended v :: extendedItems rest

def extendedFields : List (String × Value) → List (String × Json)
  | [] => []
  | (k, v) :: rest => (k, extended v) :: extendedFields rest
end

end Value
end RelDoc
