import RelDoc.Error

/-!
# Tables as collections

A `Catalog` answers where a table is stored and which document field holds a column. A
`TableMapping` describes one table; the catalog of a list of mappings takes the last mapping of a
table, stores its identifier column in the primary key field whatever else is said of that column,
and refuses tables and columns that are not mapped.
-/

namespace RelDoc

structure Catalog where
  collectionOf : (table : String) → Except Error String
  fieldOf : (table column : String) → Except Error String
  isIdentifier : (table column : String) → Except Error Bool

structure TableMapping where
  table : String
  collection : String
  idColumn : Option String := none
  columns : Dict String := []
deriving DecidableEq

namespace TableMapping

def fieldOf (m : TableMapping) (column : String) : Except Error String :=
  if m.idColumn = some column then .ok idField
  else
    match Dict.get? m.columns column with
    | some field => .ok field
    | none => .error (.unmappedColumn column m.table)

end TableMapping

namespace Catalog

/-- Mappings by table name, the last one of a table in force. -/
def index (mappings : List TableMapping) : Dict TableMapping :=
  Dict.ofPairs (mappings.map fun m => (m.table, m))

def mappingOf (mappings : Dict TableMapping) (table : String) : Except Error TableMapping :=
  match Dict.get? mappings table with
  | some m => .ok m
  | none => .error (.unmappedTable table)

def ofMappings (mappings : List TableMapping) : Catalog :=
  let tables := index mappings
  { collectionOf := fun table => return (← mappingOf tables table).collection
    fieldOf := fun table column => do (← mappingOf tables table).fieldOf column
    isIdentifier := fun table column => return (← mappingOf tables table).idColumn = some column }

end Catalog
end RelDoc
