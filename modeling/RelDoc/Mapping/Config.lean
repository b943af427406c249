import RelDoc.Json.Reader
import RelDoc.Mapping.Basic
import RelDoc.Text.Blank

/-!
# Configurations

A configuration names a connection, a database and the mappings of its tables. A valid one
(`Config.validate`) has nothing blank in it and maps every table once.

It is read from JSON text: a configuration or a mapping is an object of named fields or the array
of its fields in order. Unknown names are passed over, known ones may not be repeated, and only the
identifier column may be `null`; missing tables, columns and identifier columns are empty.
-/

namespace RelDoc

structure Config where
  connection : String
  database : String
  tables : List TableMapping := []
deriving DecidableEq

namespace Config

/-- Refuses a mapping with a blank collection, then one with a blank field. -/
def checkMapping (m : TableMapping) : Except Error Unit :=
  if isBlank m.collection then .error (.configuration (.blankCollection m.table))
  else
    match m.columns.find? fun (_, field) => isBlank field with
    | some (column, _) => .error (.configuration (.blankField column m.table))
    | none => .ok ()

/-- Refuses the first table that was seen before or is badly mapped. -/
def checkTables (seen : List String) : List TableMapping → Except Error Unit
  | [] => .ok ()
  | m :: rest =>
    if m.table ∈ seen then .error (.configuration (.tableTwice m.table))
    else do
      checkMapping m
      checkTables (m.table :: seen) rest

/-- Checks that nothing is blank and no table is mapped twice. -/
def validate (c : Config) : Except Error Unit :=
  if isBlank c.connection then .error (.configuration .blankConnection)
  else if isBlank c.database then .error (.configuration .blankDatabase)
  else checkTables [] c.tables

def catalog (c : Config) : Catalog := Catalog.ofMappings c.tables

def readText : JsonTree → Option String
  | .string units => JsonTree.text? units
  | _ => none

/-- A text or `null`. -/
def readOptionalText : JsonTree → Option (Option String)
  | .null => some none
  | t => (readText t).map some

/-- Texts under texts; of a repeated key the last text counts. -/
def readTexts : JsonTree → Option (Dict String)
  | .object members => do
    let pairs ← members.mapM fun (key, t) => do
      let k ← JsonTree.text? key
      let v ← readText t
      return (k, v)
    return Dict.ofPairs pairs
  | _ => none

/-- The values of the named fields, in the order of `names`: the members of an object, each known
name at most once, or the items of an array, no more of them than names. -/
def readFields (names : List String) : JsonTree → Option (List (Option JsonTree))
  | .object members => do
    let keyed ← members.mapM fun (key, t) => do return (← JsonTree.text? key, t)
    let repeated := names.any fun name => 1 < (keyed.filter (·.1 = name)).length
    if repeated then none else return names.map (Dict.get? keyed)
  | .array items =>
    if names.length < items.length then none
    else some (items.map some ++ List.replicate (names.length - items.length) none)
  | _ => none

def withDefault {α : Type} (read : JsonTree → Option α) (default : α) : Option JsonTree → Option α
  | none => some default
  | some t => read t

def readMapping (t : JsonTree) : Option TableMapping := do
  match ← readFields ["table", "collection", "id_column", "columns"] t with
  | [table, collection, idColumn, columns] =>
    return {
      table := ← readText (← table)
      collection := ← readText (← collection)
      idColumn := ← withDefault readOptionalText none idColumn
      columns := ← withDefault readTexts [] columns }
  | _ => none

def readMappings : JsonTree → Option (List TableMapping)
  | .array items => items.mapM readMapping
  | _ => none

def ofTree? (t : JsonTree) : Option Config := do
  match ← readFields ["connection_string", "database", "tables"] t with
  | [connection, database, tables] =>
    return {
      connection := ← readText (← connection)
      database := ← readText (← database)
      tables := ← withDefault readMappings [] tables }
  | _ => none

def ofJson (s : String) : Except Error Config :=
  match (JsonTree.ofString? s).bind ofTree? with
  | none => .error (.configuration .malformed)
  | some c => do
    c.validate
    return c

end Config

end RelDoc
