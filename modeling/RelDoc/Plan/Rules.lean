import RelDoc.Codec
import RelDoc.Mapping.Basic
import RelDoc.Plan.Fragment

/-!
# Rules of planning

The steps of planning a statement that need no visit of a further node: what a node becomes once
its parts are known, and which nodes have no counterpart at all.
-/

namespace RelDoc

namespace Comparison

/-- The query operator of a comparison; null-safe comparisons have none. -/
def toQuery : Comparison → Except Error QueryOperator
  | equal => .ok .eq
  | notEqual => .ok .ne
  | greater => .ok .gt
  | greaterOrEqual => .ok .gte
  | less => .ok .lt
  | lessOrEqual => .ok .lte
  | distinct => .error (.unsupported (.comparison .distinct))
  | notDistinct => .error (.unsupported (.comparison .notDistinct))

end Comparison

namespace Junction

def combinator : Junction → Combinator
  | all => .and
  | any => .or

end Junction

/-- Where a statement's tables are stored and how its literals are written. -/
structure Dialect where
  catalog : Catalog
  codec : Codec

namespace Dialect

variable (d : Dialect)

/-- The operand of a column within the statement on `scope`. -/
def columnOperand (scope : Option Table) (c : Column) : Except Error Operand :=
  match scope with
  | none => .error (.assertion (.columnOutsideStatement c.name))
  | some table =>
    match c.qualifier with
    | some q =>
      if table.isQualifiedBy q then return .field ⟨← d.catalog.fieldOf table.name c.name⟩
      else .error (.unsupported (.foreignColumn q c.name table.name))
    | none => return .field ⟨← d.catalog.fieldOf table.name c.name⟩

/-- The operand of an expression; calls, arithmetic and NULL have none. -/
def operand (scope : Option Table) : Expression → Except Error Operand
  | .column c => d.columnOperand scope c
  | .literal v => return .value (← Term.ofValue (← d.codec.encode v))
  | .parameter position => .ok (.value (.placeholder position))
  | .null => .error (.unsupported .nullLiteral)
  | .function name _ => .error (.unsupported (.function name))
  | .arithmetic operator _ _ => .error (.unsupported (.arithmetic operator))

def isIdentifier (scope : Option Table) (c : Column) : Except Error Bool :=
  match scope with
  | some table => d.catalog.isIdentifier table.name c.name
  | none => .ok false

end Dialect

namespace Operand

def columnField : Operand → Except Error FieldPath
  | field path => .ok path
  | value _ => .error (.assertion .columnIsValue)

/-- The value of an operand in a place that takes no column. -/
def toValue (place : ValuePlace) : Operand → Except Error Term
  | value t => .ok t
  | field path => .error (.unsupported (.columnAsValue path.text place))

/-- The field of an operand in a place that takes no value. -/
def toField (place : ColumnPlace) : Operand → Except Error FieldPath
  | field path => .ok path
  | value _ => .error (.unsupported (.valueAsColumn place))

end Operand

/-- The filter of a comparison whose operands are known: with the value in front, the comparison is
turned round. -/
def comparisonFilter (comparison : Comparison) (operator : QueryOperator) (left right : Operand) :
    Except Error Filter :=
  match left, right with
  | .field path, .value t => .ok (.comparison path operator t)
  | .value t, .field path => return .comparison path (← comparison.flip.toQuery) t
  | .field a, .field b => .error (.unsupported (.columnComparison a.text b.text))
  | .value _, .value _ => .error (.unsupported .comparisonWithoutColumn)

/-- Adds a projection unless its field is already projected. -/
def addProjection (fields : List Projection) (p : Projection) : List Projection :=
  if fields.any (·.field = p.field) then fields else fields ++ [p]

/-- Leaves the primary key out of a projection that does not ask for it. -/
def completeProjection (fields : List Projection) : List Projection :=
  if fields.isEmpty || fields.any (·.field.isId) then fields else fields ++ [⟨⟨idField⟩, false⟩]

/-- Adds a sort key unless its field is already sorted by; a projection has to include it. -/
def addSortKey (fields : List Projection) (keys : List SortKey) (k : SortKey) : Except Error (List SortKey) :=
  if !fields.isEmpty && !fields.any (fun p => p.included && p.field = k.field) then
    .error (.unsupported (.hiddenSort k.field.text))
  else if keys.any (·.field = k.field) then .ok keys
  else .ok (keys ++ [k])

def checkUpdates (updates : List FieldUpdate) : Except Error Unit :=
  match firstRepeated [] (updates.map (·.field.text)) with
  | some name => .error (.unsupported (.assignedTwice name))
  | none => .ok ()

/-- Refuses a select with a clause that has no counterpart. -/
def Select.checkClauses (s : Select) : Except Error Unit :=
  if !s.groupBy.isEmpty then .error (.unsupported .groupBy)
  else if s.isDistinct then .error (.unsupported .distinct)
  else .ok ()

def Join.refusal (j : Join) : Error := .unsupported (.join j.kind j.table.name)

end RelDoc
