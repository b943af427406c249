import RelDoc.Command.Term

/-!
# Filters

A `Filter` restricts the documents that a command works on. A combination has at least one member;
`Filter.combine` refuses an empty one. A filter pins the primary key if it is an equality on it, or
a conjunction with a member that pins it.
-/

namespace RelDoc

/-- The path of a field, possibly dotted. -/
structure FieldPath where
  text : String
deriving DecidableEq

namespace FieldPath

def isId (p : FieldPath) : Bool := p.text = idField

end FieldPath

inductive Filter where
  /-- Every document passes. -/
  | all
  | comparison (path : FieldPath) (operator : QueryOperator) (value : Term)
  | combination (operator : Combinator) (parts : List Filter)

instance : Inhabited Filter := ⟨.all⟩

namespace Filter

/-- A combination of at least one filter. -/
def combine (operator : Combinator) (parts : List Filter) : Except Error Filter :=
  if parts.isEmpty then .error (.assertion (.emptyCombination operator)) else .ok (.combination operator parts)

mutual
/-- Does the filter pin the primary key to a single value? -/
def pinsId : Filter → Bool
  | all => false
  | comparison path operator _ => operator = .eq && path.isId
  | combination operator parts => operator = .and && anyPinsId parts

def anyPinsId : List Filter → Bool
  | [] => false
  | f :: rest => pinsId f || anyPinsId rest
end

mutual
/-- What the constructors guarantee. -/
def WellFormed : Filter → Prop
  | all => True
  | comparison _ _ value => value.WellFormed
  | combination _ parts => parts ≠ [] ∧ AllWellFormed parts

def AllWellFormed : List Filter → Prop
  | [] => True
  | f :: rest => WellFormed f ∧ AllWellFormed rest
end

mutual
/-- The positions of the parameters in a filter, in order of writing. -/
def positions : Filter → List Nat
  | all => []
  | comparison _ _ value => value.positions
  | combination _ parts => listPositions parts

def listPositions : List Filter → List Nat
  | [] => []
  | f :: rest => positions f ++ listPositions rest
end

mutual
/-- The document of a filter whose parameters have the values that `σ` gives. -/
def fill (σ : Nat → Value) : Filter → Document
  | all => []
  | comparison path operator value => [(path.text, .document [(operator.token, value.fill σ)])]
  | combination operator parts => [(operator.token, .array (fillList σ parts))]

def fillList (σ : Nat → Value) : List Filter → List Value
  | [] => []
  | f :: rest => .document (fill σ f) :: fillList σ rest
end

end Filter
end RelDoc
