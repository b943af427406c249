import RelDoc.Plan.Visit

/-!
# Planning by plain recursion

The plan of a statement by recursive functions that give their fragments back directly: no
exchange, no scopes of it and no state. The table in scope and the fields that rows fill are
arguments. It answers what a pass of visits answers, error for error.
-/

namespace RelDoc
namespace Direct

variable (d : Dialect)

def fieldOf (scope : Option Table) (c : Column) : Except Error FieldPath := do
  let o ← d.columnOperand scope c
  o.columnField

/-- The value of an expression in a place that takes no column. -/
def valueOf (scope : Option Table) (place : ValuePlace) (e : Expression) : Except Error Term := do
  let o ← d.operand scope e
  o.toValue place

/-- The field of an expression in a place that takes no value. -/
def columnFieldOf (scope : Option Table) (place : ColumnPlace) (e : Expression) : Except Error FieldPath := do
  let o ← d.operand scope e
  o.toField place

def comparison (scope : Option Table) (c : Comparison) (left right : Expression) : Except Error Filter := do
  let operator ← c.toQuery
  let l ← d.operand scope left
  let r ← d.operand scope right
  comparisonFilter c operator l r

mutual
def filter (scope : Option Table) : Predicate → Except Error Filter
  | .comparison c left right => comparison d scope c left right
  | .junction kind parts => do
    let fs ← filters scope parts
    Filter.combine kind.combinator fs
  | .negated p => do
    let inner ← filter scope p
    Filter.combine .nor [inner]
  | .grouped p => filter scope p
  | .nullness _ n => .error (.unsupported (.nullness n))
  | .membership _ _ n => .error (.unsupported (.membership n))
  | .pattern _ _ n => .error (.unsupported (.pattern n))
  | .between _ _ _ n => .error (.unsupported (.between n))

def filters (scope : Option Table) : List Predicate → Except Error (List Filter)
  | [] => .ok []
  | p :: rest => do
    let f ← filter scope p
    let more ← filters scope rest
    return f :: more
end

/-- Without a restriction every row takes part. -/
def restriction (scope : Option Table) : Option Predicate → Except Error Filter
  | some p => filter d scope p
  | none => .ok .all

def update (scope : Option Table) (a : Assignment) : Except Error FieldUpdate := do
  let field ← fieldOf d scope a.column
  let identifier ← d.isIdentifier scope a.column
  if identifier || field.isId then .error (.unsupported .identifierAssigned)
  else
    let value ← valueOf d scope .assignment a.value
    return ⟨field, value⟩

def row (scope : Option Table) : List FieldPath → List Expression → Except Error (List (String × Term))
  | field :: fields, e :: es => do
    let t ← valueOf d scope .insert e
    let more ← row scope fields es
    return (field.text, t) :: more
  | _, _ => .ok []

/-- The document of a row whose values fill the given fields. -/
def document (scope : Option Table) (fields : List FieldPath) (values : List Expression) :
    Except Error Template :=
  if values.length ≠ fields.length then .error (.assertion (.rowWidth values.length fields.length))
  else do
    let named ← row d scope fields values
    Template.ofFields named

def projection (scope : Option Table) (s : Selection) : Except Error Projection := do
  let field ← columnFieldOf d scope .selection s.expression
  return ⟨field, true⟩

def sortKey (scope : Option Table) (s : SortItem) : Except Error SortKey := do
  let field ← columnFieldOf d scope .orderBy s.expression
  return ⟨field, s.direction⟩

/-- The projections of a select list, added to those before it. -/
def projections (scope : Option Table) (fields : List Projection) :
    List Selection → Except Error (List Projection)
  | [] => .ok fields
  | s :: rest => do
    let p ← projection d scope s
    projections scope (addProjection fields p) rest

/-- The sort keys of an ORDER BY list, added to those before it. -/
def sortKeys (scope : Option Table) (fields : List Projection) (keys : List SortKey) :
    List SortItem → Except Error (List SortKey)
  | [] => .ok keys
  | s :: rest => do
    let k ← sortKey d scope s
    let keys' ← addSortKey fields keys k
    sortKeys scope fields keys' rest

def filterStage (scope : Option Table) : Option Predicate → Except Error (List Stage)
  | some p => do
    let f ← filter d scope p
    return [.filter f]
  | none => .ok []

/-- The stage of an OFFSET or FETCH clause. -/
def countStage (scope : Option Table) (kind : CountStage) : Option Expression → Except Error (List Stage)
  | some e => do
    let count ← valueOf d scope kind.place e
    let stage ← Stage.ofCount kind count
    return [stage]
  | none => .ok []

def insert (s : Insert) : Except Error Command :=
  match s.source with
  | .select _ => .error (.unsupported .insertFromSelect)
  | .rows rows => do
    let collection ← d.catalog.collectionOf s.table.name
    let fields ← s.columns.mapM (fieldOf d (some s.table))
    let documents ← rows.mapM (document d (some s.table) fields)
    Command.ofDocuments collection documents

def updateCommand (s : Update) : Except Error Command := do
  let collection ← d.catalog.collectionOf s.table.name
  let f ← restriction d (some s.table) s.restriction
  let updates ← s.assignments.mapM (update d (some s.table))
  checkUpdates updates
  Command.ofUpdates collection f updates

def delete (s : Delete) : Except Error Command := do
  let collection ← d.catalog.collectionOf s.table.name
  let f ← restriction d (some s.table) s.restriction
  return .delete collection f

def select (s : Select) : Except Error Command := do
  match s.joins with
  | j :: _ => throw j.refusal
  | [] =>
    s.checkClauses
    let scope := some s.table
    let collection ← d.catalog.collectionOf s.table.name
    let f ← filterStage d scope s.restriction
    let selected ← projections d scope [] s.selections
    let fields := completeProjection selected
    let keys ← sortKeys d scope fields [] s.orderBy
    let project ← projectStage fields
    let sort ← sortStage keys
    let skip ← countStage d scope .skip s.offset
    let limit ← countStage d scope .limit s.fetch
    return .aggregate collection (f ++ project ++ sort ++ skip ++ limit)

def command : Statement → Except Error Command
  | .insert s => insert d s
  | .update s => updateCommand d s
  | .delete s => delete d s
  | .select s => select d s

end Direct
end RelDoc
