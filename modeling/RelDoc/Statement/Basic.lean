import RelDoc.Scalar

/-!
# Relational statements

Statements over tables, columns and rows: INSERT, UPDATE, DELETE and SELECT with their expressions
and predicates. Parameters are known by their position alone.
-/

namespace RelDoc

/-- An occurrence of a table, with the alias that may qualify its columns. -/
structure Table where
  name : String
  «alias» : Option String := none
deriving DecidableEq

namespace Table

/-- Does a column's qualifier mean this table? -/
def isQualifiedBy (t : Table) (qualifier : String) : Bool :=
  t.alias = some qualifier || t.name = qualifier

end Table

/-- A reference to a column, with the table name or alias in front of it. -/
structure Column where
  qualifier : Option String := none
  name : String
deriving DecidableEq

inductive Arithmetic where
  | add
  | subtract
  | multiply
  | divide
  | modulo
deriving DecidableEq

inductive Expression where
  | column (c : Column)
  | literal (v : Scalar)
  | parameter (position : Nat)
  | null
  | function (name : String) (arguments : List Expression)
  | arithmetic (operator : Arithmetic) (left right : Expression)

inductive Comparison where
  | equal
  | notEqual
  | less
  | lessOrEqual
  | greater
  | greaterOrEqual
  | distinct
  | notDistinct
deriving DecidableEq

namespace Comparison

/-- The comparison with its sides exchanged: `a op b` is `b op.flip a`. -/
def flip : Comparison → Comparison
  | less => greater
  | lessOrEqual => greaterOrEqual
  | greater => less
  | greaterOrEqual => lessOrEqual
  | equal => equal
  | notEqual => notEqual
  | distinct => distinct
  | notDistinct => notDistinct

@[simp] theorem flip_flip (c : Comparison) : c.flip.flip = c := by cases c <;> rfl

def symbol : Comparison → String
  | equal => "="
  | notEqual => "<>"
  | less => "<"
  | lessOrEqual => "<="
  | greater => ">"
  | greaterOrEqual => ">="
  | distinct => "is distinct from"
  | notDistinct => "is not distinct from"

end Comparison

inductive Junction where
  | all
  | any
deriving DecidableEq

inductive Predicate where
  | comparison (operator : Comparison) (left right : Expression)
  | junction (kind : Junction) (parts : List Predicate)
  | negated (p : Predicate)
  | grouped (p : Predicate)
  | nullness (e : Expression) (isNegated : Bool)
  | membership (e : Expression) (list : List Expression) (isNegated : Bool)
  | pattern (e like : Expression) (isNegated : Bool)
  | between (e lower upper : Expression) (isNegated : Bool)

/-- `column = value` in an UPDATE. -/
structure Assignment where
  column : Column
  value : Expression

inductive JoinKind where
  | inner
  | left
  | right
  | full
  | cross
deriving DecidableEq

structure Join where
  kind : JoinKind
  table : Table
  condition : Option Predicate := none

structure Selection where
  expression : Expression
  «alias» : Option String := none

inductive Direction where
  | ascending
  | descending
deriving DecidableEq

structure SortItem where
  expression : Expression
  direction : Direction

structure Select where
  table : Table
  selections : List Selection
  joins : List Join := []
  restriction : Option Predicate := none
  groupBy : List Expression := []
  orderBy : List SortItem := []
  offset : Option Expression := none
  fetch : Option Expression := none
  isDistinct : Bool := false

/-- Where the rows of an INSERT come from. -/
inductive RowSource where
  | rows (values : List (List Expression))
  | select (s : Select)

structure Insert where
  table : Table
  columns : List Column
  source : RowSource := .rows []

namespace Insert

/-- Adds a row of values; rows take the place of a select source. -/
def withRow (s : Insert) (row : List Expression) : Insert :=
  match s.source with
  | .rows values => { s with source := .rows (values ++ [row]) }
  | .select _ => { s with source := .rows [row] }

end Insert

structure Update where
  table : Table
  assignments : List Assignment
  restriction : Option Predicate := none

structure Delete where
  table : Table
  restriction : Option Predicate := none

inductive Statement where
  | insert (s : Insert)
  | update (s : Update)
  | delete (s : Delete)
  | select (s : Select)

namespace Statement

/-- The table a statement reads or writes. -/
def target : Statement → Table
  | insert s => s.table
  | update s => s.table
  | delete s => s.table
  | select s => s.table

end Statement
end RelDoc
