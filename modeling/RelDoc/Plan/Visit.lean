import RelDoc.Plan.Rules

/-!
# Visiting a statement

A statement is planned, that is turned into a command, by visits to its nodes. A visit answers only whether it succeeded; the
fragment that it makes of its node goes through the exchange to the scope that its caller opened.
Beside the exchange a pass keeps the table in scope and the fields that the rows of an INSERT fill.
A visit that fails leaves them, and every scope around its own, as they were.
-/

namespace RelDoc

structure Pass where
  exchange : Exchange FragmentKind Fragment := {}
  scope : Option Table := none
  insertFields : List FieldPath := []

/-- An action on a pass; its state is kept also after an error. -/
abbrev Visit (α : Type) := ExceptT Error (StateM Pass) α

namespace Visit

def yieldFragment {α : Type} [IsFragment α] (a : α) : Visit Unit := fun pass =>
  match pass.exchange.yield (IsFragment.wrap a) with
  | .ok x => (.ok (), { pass with exchange := x })
  | .error fault => (.error (.assertion (.exchange fault)), pass)

/-- Runs a visit in a scope of its own and gives the fragment it yielded. The error of the visit
comes before any fault of the scope. -/
def produce {α : Type} [IsFragment α] (visit : Visit Unit) : Visit α := fun pass =>
  let kind := IsFragment.kind α
  let (outcome, visited) := visit { pass with exchange := pass.exchange.enter kind }
  let (answer, x) := visited.exchange.leave kind
  let left := { visited with exchange := x }
  match outcome, answer with
  | .error e, _ => (.error e, left)
  | .ok (), .error fault => (.error (.assertion (.exchange fault)), left)
  | .ok (), .ok fragment =>
    match IsFragment.unwrap fragment with
    | some a => (.ok a, left)
    | none => (.error (.assertion (.exchange (.mixedUp kind))), left)

/-- Runs a visit with a table in scope. Statements do not nest. -/
def withScope {α : Type} (table : Table) (visit : Visit α) : Visit α := fun pass =>
  match pass.scope with
  | some outer => (.error (.unsupported (.nestedStatement table.name outer.name)), pass)
  | none =>
    let (outcome, visited) := visit { pass with scope := some table }
    (outcome, { visited with scope := none })

def withInsertFields {α : Type} (fields : List FieldPath) (visit : Visit α) : Visit α := fun pass =>
  let (outcome, visited) := visit { pass with insertFields := fields }
  (outcome, { visited with insertFields := pass.insertFields })

end Visit

open Visit

/-- Joins have no counterpart. -/
def Join.visit (j : Join) : Visit Unit := throw j.refusal

/-- Refuses the first join there is. -/
def Join.visitAll : List Join → Visit Unit
  | [] => return ()
  | j :: rest => do
    j.visit
    visitAll rest

namespace Dialect

variable (d : Dialect)

def visitTable (t : Table) : Visit Unit := do
  let name ← d.catalog.collectionOf t.name
  yieldFragment name

def visitColumn (c : Column) : Visit Unit := do
  let o ← d.columnOperand (← get).scope c
  yieldFragment o

def visitExpression (e : Expression) : Visit Unit := do
  let o ← d.operand (← get).scope e
  yieldFragment o

def collectionOf (t : Table) : Visit String := produce (d.visitTable t)

def operandOf (e : Expression) : Visit Operand := produce (d.visitExpression e)

def fieldOf (c : Column) : Visit FieldPath := do
  let o ← (produce (d.visitColumn c) : Visit Operand)
  o.columnField

/-- The value of an expression in a place that takes no column. -/
def valueOf (place : ValuePlace) (e : Expression) : Visit Term := do
  let o ← d.operandOf e
  o.toValue place

/-- The field of an expression in a place that takes no value. -/
def columnFieldOf (place : ColumnPlace) (e : Expression) : Visit FieldPath := do
  let o ← d.operandOf e
  o.toField place

def visitComparison (c : Comparison) (left right : Expression) : Visit Unit := do
  let operator ← c.toQuery
  let l ← d.operandOf left
  let r ← d.operandOf right
  let f ← comparisonFilter c operator l r
  yieldFragment f

mutual
/-- A group has no fragment of its own: its predicate yields in its place. -/
def visitPredicate : Predicate → Visit Unit
  | .comparison c left right => d.visitComparison c left right
  | .junction kind parts => do
    let filters ← filtersOf parts
    let f ← Filter.combine kind.combinator filters
    yieldFragment f
  | .negated p => do
    let inner ← (produce (visitPredicate p) : Visit Filter)
    let f ← Filter.combine .nor [inner]
    yieldFragment f
  | .grouped p => visitPredicate p
  | .nullness _ n => throw (.unsupported (.nullness n))
  | .membership _ _ n => throw (.unsupported (.membership n))
  | .pattern _ _ n => throw (.unsupported (.pattern n))
  | .between _ _ _ n => throw (.unsupported (.between n))

def filtersOf : List Predicate → Visit (List Filter)
  | [] => return []
  | p :: rest => do
    let f ← (produce (visitPredicate p) : Visit Filter)
    let more ← filtersOf rest
    return f :: more
end

def filterOf (p : Predicate) : Visit Filter := produce (d.visitPredicate p)

/-- Without a restriction every row takes part. -/
def restrictionOf : Option Predicate → Visit Filter
  | some p => d.filterOf p
  | none => return .all

def visitAssignment (a : Assignment) : Visit Unit := do
  let field ← d.fieldOf a.column
  let identifier ← d.isIdentifier (← get).scope a.column
  if identifier || field.isId then throw (.unsupported .identifierAssigned)
  let value ← d.valueOf .assignment a.value
  yieldFragment (FieldUpdate.mk field value)

def rowOf : List FieldPath → List Expression → Visit (List (String × Term))
  | field :: fields, e :: es => do
    let t ← d.valueOf .insert e
    let more ← rowOf fields es
    return (field.text, t) :: more
  | _, _ => return []

def visitRow (values : List Expression) : Visit Unit := do
  let fields := (← get).insertFields
  if values.length ≠ fields.length then throw (.assertion (.rowWidth values.length fields.length))
  let row ← d.rowOf fields values
  let document ← Template.ofFields row
  yieldFragment document

def visitSelection (s : Selection) : Visit Unit := do
  let field ← d.columnFieldOf .selection s.expression
  yieldFragment (Projection.mk field true)

def visitSortItem (s : SortItem) : Visit Unit := do
  let field ← d.columnFieldOf .orderBy s.expression
  yieldFragment (SortKey.mk field s.direction)

def rowsOf : List (List Expression) → Visit (List Template)
  | [] => return []
  | row :: rest => do
    let document ← (produce (d.visitRow row) : Visit Template)
    let more ← rowsOf rest
    return document :: more

def fieldsOf : List Column → Visit (List FieldPath)
  | [] => return []
  | c :: rest => do
    let field ← d.fieldOf c
    let more ← fieldsOf rest
    return field :: more

def visitInsert (s : Insert) : Visit Unit := do
  match s.source with
  | .select _ => throw (.unsupported .insertFromSelect)
  | .rows rows =>
    let command ← withScope s.table do
      let collection ← d.collectionOf s.table
      let fields ← d.fieldsOf s.columns
      let documents ← withInsertFields fields (d.rowsOf rows)
      Command.ofDocuments collection documents
    yieldFragment command

def updatesOf : List Assignment → Visit (List FieldUpdate)
  | [] => return []
  | a :: rest => do
    let update ← (produce (d.visitAssignment a) : Visit FieldUpdate)
    let more ← updatesOf rest
    return update :: more

def visitUpdate (s : Update) : Visit Unit := do
  let command ← withScope s.table do
    let collection ← d.collectionOf s.table
    let filter ← d.restrictionOf s.restriction
    let updates ← d.updatesOf s.assignments
    checkUpdates updates
    Command.ofUpdates collection filter updates
  yieldFragment command

def visitDelete (s : Delete) : Visit Unit := do
  let command ← withScope s.table do
    let collection ← d.collectionOf s.table
    let filter ← d.restrictionOf s.restriction
    return Command.delete collection filter
  yieldFragment command

/-- The projections of a select list, added to those before it. -/
def projectionsOf (fields : List Projection) : List Selection → Visit (List Projection)
  | [] => return fields
  | s :: rest => do
    let p ← (produce (d.visitSelection s) : Visit Projection)
    projectionsOf (addProjection fields p) rest

/-- The sort keys of an ORDER BY list, added to those before it. -/
def sortKeysOf (fields : List Projection) (keys : List SortKey) : List SortItem → Visit (List SortKey)
  | [] => return keys
  | s :: rest => do
    let k ← (produce (d.visitSortItem s) : Visit SortKey)
    let keys' ← addSortKey fields keys k
    sortKeysOf fields keys' rest

def filterStage : Option Predicate → Visit (List Stage)
  | some p => do
    let f ← d.filterOf p
    return [.filter f]
  | none => return []

/-- The stage of an OFFSET or FETCH clause. -/
def countStage (kind : CountStage) : Option Expression → Visit (List Stage)
  | some e => do
    let count ← d.valueOf kind.place e
    let stage ← Stage.ofCount kind count
    return [stage]
  | none => return []

end Dialect

def projectStage (fields : List Projection) : Except Error (List Stage) :=
  if fields.isEmpty then .ok [] else return [← Stage.ofProjections fields]

def sortStage (keys : List SortKey) : Except Error (List Stage) :=
  if keys.isEmpty then .ok [] else return [← Stage.ofSortKeys keys]

namespace Dialect

variable (d : Dialect)

def visitSelect (s : Select) : Visit Unit := do
  Join.visitAll s.joins
  s.checkClauses
  let command ← withScope s.table do
    let collection ← d.collectionOf s.table
    let filter ← d.filterStage s.restriction
    let selected ← d.projectionsOf [] s.selections
    let fields := completeProjection selected
    let keys ← d.sortKeysOf fields [] s.orderBy
    let project ← projectStage fields
    let sort ← sortStage keys
    let skip ← d.countStage .skip s.offset
    let limit ← d.countStage .limit s.fetch
    return Command.aggregate collection (filter ++ project ++ sort ++ skip ++ limit)
  yieldFragment command

def visitStatement : Statement → Visit Unit
  | .insert s => d.visitInsert s
  | .update s => d.visitUpdate s
  | .delete s => d.visitDelete s
  | .select s => d.visitSelect s

def plan (s : Statement) : Visit Command := produce (d.visitStatement s)

/-- The command of a statement, planned by a pass of its own. -/
def commandOf (s : Statement) : Except Error Command := ((d.plan s).run.run {}).1

/-- Plans statements one after another with one pass. -/
def planAll (pass : Pass) : List Statement → List (Except Error Command) × Pass
  | [] => ([], pass)
  | s :: rest =>
    let (answer, after) := (d.plan s).run.run pass
    let (answers, last) := planAll after rest
    (answer :: answers, last)

end Dialect
end RelDoc
