import RelDoc.Number.Layout
import RelDoc.Text.Quoted

/-!
# JSON values and their compact text

A JSON value with its members in order. `Json.compact` writes it without any blank; a double has at
least one decimal and is written with an exponent outside `10 ^ -5 … 10 ^ 16`.
-/

namespace RelDoc

inductive Json where
  | null
  | bool (b : Bool)
  | integer (n : Int)
  | double (d : Double)
  | string (s : String)
  | array (items : List Json)
  | object (members : List (String × Json))

namespace Json

/-- Doubles keep a decimal and are positional from `10 ^ -5` up to below `10 ^ 16`; of two equally
near decimals the even one is written. -/
def doubleLayout : Layout :=
  { tie := .even, positional := some (-5, 16), keepsPoint := true, signsExponent := true }

mutual
/-- The text without blanks. -/
def compact : Json → String
  | null => "null"
  | bool b => if b then "true" else "false"
  | integer n => toString n
  | double d => doubleLayout.text d
  | string s => Quoted.encode s
  | array items => "[" ++ compactItems true items ++ "]"
  | object members => "\x7b" ++ compactMembers true members ++ "\x7d"

/-- The items; `first` tells whether nothing stands before them. -/
def compactItems (first : Bool) : List Json → String
  | [] => ""
  | v :: rest => (if first then "" else ",") ++ compact v ++ compactItems false rest

def compactMembers (first : Bool) : List (String × Json) → String
  | [] => ""
  | (k, v) :: rest =>
    (if first then "" else ",") ++ Quoted.encode k ++ ":" ++ compact v ++ compactMembers false rest
end

end Json
end RelDoc
