import RelDoc.Number.DecimalText
import RelDoc.Number.Layout
import RelDoc.Text.Base64
import RelDoc.Text.Hex
import RelDoc.Time.Calendar
import RelDoc.Value.Basic

/-!
# Values in messages

The short text of a value that messages quote: strings stand between quotes as they are, doubles
never have an exponent, and the rarer types are written like calls of their name.
-/

namespace RelDoc
namespace Value

/-- Doubles are always positional, whole ones without a point. -/
def displayLayout : Layout :=
  { tie := .up, positional := none, keepsPoint := false, signsExponent := false }

/-- A date with its time; outside the years -9999 … 9999 the bare milliseconds. -/
def momentText (millis : Int) : String :=
  let m := Moment.ofMillis millis
  if m.date.year < -9999 ∨ 9999 < m.date.year then toString millis
  else
    let fraction := m.clock.fraction
    m.date.yearText ++ "-" ++ padded 2 m.date.month ++ "-" ++ padded 2 m.date.day ++ " " ++
      toString m.clock.hour ++ ":" ++ padded 2 m.clock.minute ++ ":" ++ padded 2 m.clock.second ++ "." ++
      (if fraction.isEmpty then "0" else String.ofList fraction) ++ " +00:00:00"

mutual
def display : Value → String
  | null => "null"
  | undefined => "undefined"
  | boolean b => if b then "true" else "false"
  | int32 n => toString n.toInt
  | int64 n => toString n.toInt
  | double d => displayLayout.text d
  | string s => "\"" ++ s ++ "\""
  | array items => "[" ++ displayItems true items ++ "]"
  | document fields => displayDocument fields
  | dateTime millis => "DateTime(\"" ++ momentText millis.toInt ++ "\")"
  | objectId id => "ObjectId(\"" ++ Hex.encode id.data ++ "\")"
  | binary subtype data => "Binary(0x" ++ Hex.ofNat subtype.toNat ++ ", " ++ Base64.encode data ++ ")"
  | regex pattern options => "/" ++ pattern ++ "/" ++ options
  | dbPointer collection id => "DbPointer(" ++ collection ++ ", " ++ Hex.encode id.data ++ ")"
  | code source => source
  | codeWithScope source _ => source
  | timestamp time increment => "Timestamp(" ++ toString time.toNat ++ ", " ++ toString increment.toNat ++ ")"
  | symbol s => "Symbol(\"" ++ s ++ "\")"
  | decimal data => (Decimal128.ofBytes data).text
  | minKey => "MinKey"
  | maxKey => "MaxKey"

def displayItems (first : Bool) : List Value → String
  | [] => ""
  | v :: rest => (if first then "" else ", ") ++ display v ++ displayItems false rest

def displayDocument : List (String × Value) → String
  | [] => "\x7b\x7d"
  | (k, v) :: rest => "\x7b \"" ++ k ++ "\": " ++ display v ++ displayRest rest ++ " \x7d"

def displayRest : List (String × Value) → String
  | [] => ""
  | (k, v) :: rest => ", \"" ++ k ++ "\": " ++ display v ++ displayRest rest
end

end Value
end RelDoc
