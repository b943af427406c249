/-!
# Query operators

The comparisons and combinations of filters, with the tokens that name them in documents.
-/

namespace RelDoc

/-- Comparisons of a field with a value. -/
inductive QueryOperator where
  | eq
  | ne
  | gt
  | gte
  | lt
  | lte
deriving DecidableEq

namespace QueryOperator

def token : QueryOperator → String
  | eq => "$eq"
  | ne => "$ne"
  | gt => "$gt"
  | gte => "$gte"
  | lt => "$lt"
  | lte => "$lte"

def ofToken? (token : String) : Option QueryOperator :=
  [eq, ne, gt, gte, lt, lte].find? (·.token = token)

theorem ofToken?_token (o : QueryOperator) : ofToken? o.token = some o := by cases o <;> decide

end QueryOperator

/-- Combinations of filters: all of them, one of them, none of them. -/
inductive Combinator where
  | and
  | or
  | nor
deriving DecidableEq

namespace Combinator

def token : Combinator → String
  | and => "$and"
  | or => "$or"
  | nor => "$nor"

end Combinator

/-- The clauses of a command that list fields by name. -/
inductive FieldClause where
  | set
  | project
  | sort
deriving DecidableEq

namespace FieldClause

def token : FieldClause → String
  | set => "$set"
  | project => "$project"
  | sort => "$sort"

end FieldClause

/-- The stages that count rows. -/
inductive CountStage where
  | skip
  | limit
deriving DecidableEq

namespace CountStage

def token : CountStage → String
  | skip => "$skip"
  | limit => "$limit"

/-- The least count that the stage takes: nothing may be skipped, but a limit keeps a row. -/
def least : CountStage → Int
  | skip => 0
  | limit => 1

end CountStage
end RelDoc
