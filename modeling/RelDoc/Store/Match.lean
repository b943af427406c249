import RelDoc.Error
import RelDoc.Value.Order

/-!
# Which documents a filter selects

A filter is a document. Each of its entries is a condition: a combination of further filters under
`$and`, `$or` or `$nor`, or a condition on the field that the name, split at its dots, leads to. A
field's condition is a document of operators if its first name begins with a dollar sign, and
otherwise a value that the field has to equal. Conditions are tried in order up to the first that
does not hold; a malformed one that is reached is an error.
-/

namespace RelDoc

def splitAtDots : List Char → List (List Char)
  | [] => [[]]
  | c :: rest =>
    if c = '.' then [] :: splitAtDots rest
    else
      match splitAtDots rest with
      | [] => [[c]]
      | part :: more => (c :: part) :: more

/-- The names on a dotted path. -/
def pathNames (path : String) : List String := (splitAtDots path.toList).map String.ofList

namespace Document

def follow : Document → List String → Option Value
  | _, [] => none
  | d, [name] => Dict.get? d name
  | d, name :: rest =>
    match Dict.get? d name with
    | some (.document inner) => follow inner rest
    | _ => none

/-- The value that a dotted path leads to. -/
def lookup (d : Document) (path : String) : Option Value := follow d (pathNames path)

end Document

/-- Does the name begin with a dollar sign? -/
def isOperatorName (name : String) : Bool :=
  match name.toList with
  | '$' :: _ => true
  | _ => false

namespace QueryOperator

def compares (o : QueryOperator) (v w : Value) : Bool :=
  match o with
  | eq => v.equals w
  | ne => !v.equals w
  | gt => v.compare? w = some .gt
  | gte => v.compare? w = some .gt || v.compare? w = some .eq
  | lt => v.compare? w = some .lt
  | lte => v.compare? w = some .lt || v.compare? w = some .eq

/-- Does the comparison hold for the value of a field? A missing field only differs. -/
def holds (o : QueryOperator) (v : Option Value) (w : Value) : Bool :=
  match v with
  | some v => o.compares v w
  | none => o = ne

end QueryOperator

namespace Combinator

def ofToken? (token : String) : Option Combinator :=
  if token = "$and" then some and
  else if token = "$or" then some or
  else if token = "$nor" then some nor
  else none

end Combinator

namespace Document

variable (d : Document)

/-- Tests the operators of a field's condition up to the first that fails. -/
def testOperators (v : Option Value) : List (String × Value) → Except Error Bool
  | [] => .ok true
  | (token, operand) :: rest =>
    match QueryOperator.ofToken? token with
    | none => .error (.store (.unknownOperator token))
    | some o => if o.holds v operand then testOperators v rest else .ok false

def testField (path : String) (condition : Value) : Except Error Bool :=
  let v := d.lookup path
  match condition with
  | .document ((k, w) :: rest) =>
    if isOperatorName k then testOperators v ((k, w) :: rest)
    else .ok (QueryOperator.eq.holds v condition)
  | _ => .ok (QueryOperator.eq.holds v condition)

mutual
/-- Does the document satisfy every entry of the filter? -/
def satisfies : List (String × Value) → Except Error Bool
  | [] => .ok true
  | (key, condition) :: rest => do
    let holds ← satisfiesEntry key condition
    if holds then satisfies rest else return false

def satisfiesEntry (key : String) (condition : Value) : Except Error Bool :=
  match Combinator.ofToken? key with
  | some combinator =>
    match condition with
    | .array items =>
      if items.all (·.document?.isSome) then
        match combinator with
        | .and => satisfiesAll items
        | .or => satisfiesAny items
        | .nor => return !(← satisfiesAny items)
      else .error (.store (.clauses key))
    | _ => .error (.store (.clauses key))
  | none =>
    if isOperatorName key then .error (.store (.unknownOperator key)) else d.testField key condition

/-- Tries filters up to the first that fails. -/
def satisfiesAll : List Value → Except Error Bool
  | .document f :: rest => do
    let holds ← satisfies f
    if holds then satisfiesAll rest else return false
  | _ => .ok true

/-- Tries filters up to the first that holds. -/
def satisfiesAny : List Value → Except Error Bool
  | .document f :: rest => do
    let holds ← satisfies f
    if holds then return true else satisfiesAny rest
  | _ => .ok false
end

end Document

/-- How many of the documents that match are meant. -/
inductive Extent where
  | every
  | first
deriving DecidableEq

/-- Marks the documents that a filter selects, in order. With `first` nothing is tested behind the
first match. -/
def marks (filter : Document) (extent : Extent) : List Document → Except Error (List Bool)
  | [] => .ok []
  | d :: rest => do
    let hit ← d.satisfies filter
    if hit && extent = .first then return true :: rest.map fun _ => false
    else
      let more ← marks filter extent rest
      return hit :: more

end RelDoc
