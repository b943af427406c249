import RelDoc.Store.Match

/-!
# Pipelines

The stages that a list of documents runs through: `$match`, `$project`, `$sort`, `$skip` and
`$limit`. The first name of a stage's document tells which stage it is, and the rest of the
document is not looked at.
-/

namespace RelDoc

/-- The documents of an array, if it holds nothing else. -/
def documentsOf? : List Value → Option (List Document)
  | [] => some []
  | v :: rest =>
    match v.document?, documentsOf? rest with
    | some d, some more => some (d :: more)
    | _, _ => none

/-- Does a value in a projection keep its field? -/
def Value.isTruthy : Value → Bool
  | boolean b => b
  | int32 n => n ≠ 0
  | int64 n => n ≠ 0
  | double d => !d.isZero
  | _ => true

namespace Pipeline

def documentArgument (stage : String) : Value → Except Error Document
  | .document d => .ok d
  | _ => .error (.store (.stageDocument stage))

def countArgument (stage : String) (v : Value) : Except Error Nat :=
  let count : Option Int :=
    match v with
    | .int32 n => some n.toInt
    | .int64 n => some n.toInt
    | _ => none
  match count with
  | none => .error (.store (.stageInteger stage v))
  | some n => if 0 ≤ n then .ok n.toNat else .error (.store (.stageNegative stage))

def filterRows (filter : Document) : List Document → Except Error (List Document)
  | [] => .ok []
  | d :: rest => do
    let hit ← d.satisfies filter
    let more ← filterRows filter rest
    return if hit then d :: more else more

/-- What a projection asks for: whether the primary key stays, and which other fields are named to
be kept or left out. -/
structure Projecting where
  keepsId : Bool
  included : List String
  excluded : List String
  /-- Are the fields to be kept the ones that are named? -/
  includes : Bool

/-- Reads the document of a projection. One that names only the primary key, and keeps it, keeps
nothing else. -/
def Projecting.ofDocument (spec : Document) : Except Error Projecting :=
  let keepsId := ((Dict.get? spec idField).map Value.isTruthy).getD true
  let others := spec.filter (·.1 ≠ idField)
  let included := (others.filter (·.2.isTruthy)).map Prod.fst
  let excluded := (others.filter (!·.2.isTruthy)).map Prod.fst
  if !included.isEmpty && !excluded.isEmpty then .error (.store .mixedProjection)
  else
    .ok
      { keepsId, included, excluded
        includes := !included.isEmpty || (excluded.isEmpty && keepsId && Dict.contains spec idField) }

/-- The projected document: the primary key first, then the other fields as they are stored. -/
def Projecting.apply (p : Projecting) (row : Document) : Document :=
  let id :=
    match p.keepsId, Dict.get? row idField with
    | true, some v => [(idField, v)]
    | _, _ => []
  let kept := row.filter fun (name, _) =>
    if p.includes then p.included.contains name else name ≠ idField && !p.excluded.contains name
  id ++ kept

def project (rows : List Document) (spec : Document) : Except Error (List Document) := do
  let p ← Projecting.ofDocument spec
  return rows.map p.apply

structure SortPath where
  path : String
  descending : Bool

/-- The direction that a value in a sort document stands for: is it descending? -/
def sortDirection (v : Value) : Except Error Bool :=
  match v with
  | .int32 n => if n = 1 then .ok false else if n = -1 then .ok true else .error (.store (.sortDirection v))
  | .int64 n => if n = 1 then .ok false else if n = -1 then .ok true else .error (.store (.sortDirection v))
  | _ => .error (.store (.sortDirection v))

def sortPaths : List (String × Value) → Except Error (List SortPath)
  | [] => .ok []
  | (path, v) :: rest => do
    let descending ← sortDirection v
    let more ← sortPaths rest
    return ⟨path, descending⟩ :: more

/-- The value that a document is sorted by; a missing field counts as `null`. -/
def sortValue (path : String) (d : Document) : Value := (d.lookup path).getD .null

/-- The order of two documents under a list of paths, the first that tells them apart deciding. -/
def compareRows : List SortPath → Document → Document → Ordering
  | [], _, _ => .eq
  | p :: rest, a, b =>
    let o := (sortValue p.path a).sortOrder (sortValue p.path b)
    (if p.descending then o.swap else o).then (compareRows rest a b)

/-- Puts a document into a list whose last element comes first, in front of the first element from
there that it is not less than. -/
def insertRow (paths : List SortPath) (d : Document) : List Document → List Document
  | [] => [d]
  | last :: rest =>
    if compareRows paths d last = .lt then last :: insertRow paths d rest else d :: last :: rest

/-- Sorts by insertion: every document in turn moves in front of the later ones that it is less
than, so documents that compare equal keep their order. -/
def insertRows (paths : List SortPath) (rows : List Document) : List Document :=
  (rows.foldl (fun sorted d => insertRow paths d sorted) []).reverse

/-- The comparison is transitive on the rows. It fails where a not-a-number counts as equal to two
numbers of which one is less. -/
def Orders (paths : List SortPath) (rows : List Document) : Prop :=
  ∀ a ∈ rows, ∀ b ∈ rows, ∀ c ∈ rows, (compareRows paths a b).isLE = true →
    (compareRows paths b c).isLE = true → (compareRows paths a c).isLE = true

instance (paths : List SortPath) (rows : List Document) : Decidable (Orders paths rows) :=
  inferInstanceAs (Decidable (∀ a ∈ rows, ∀ b ∈ rows, ∀ c ∈ rows, _))

/-- Up to so many rows are sorted by insertion, whatever the comparison is. -/
def insertionLimit : Nat := 20

/-- The rows for which the result of a sort is determined. -/
def Sortable (paths : List SortPath) (rows : List Document) : Prop :=
  rows.length ≤ insertionLimit ∨ Orders paths rows

instance (paths : List SortPath) (rows : List Document) : Decidable (Sortable paths rows) :=
  inferInstanceAs (Decidable (_ ∨ _))

/-- The stable sort of the library. More rows than `insertionLimit` are merged from sorted runs,
which comes to the same if the comparison orders them. If it does not, the sort may give up, or
leave the rows in any order, and `disorder` stands for all that it may do. -/
def sortRows (paths : List SortPath) (rows : List Document) : Except Error (List Document) :=
  if Sortable paths rows then .ok (insertRows paths rows) else .error .disorder

def sort (rows : List Document) (spec : Document) : Except Error (List Document) := do
  let paths ← sortPaths spec
  sortRows paths rows

def runStage (name : String) (argument : Value) (rows : List Document) : Except Error (List Document) :=
  if name = "$match" then do
    let filter ← documentArgument name argument
    filterRows filter rows
  else if name = "$project" then do
    let spec ← documentArgument name argument
    project rows spec
  else if name = "$sort" then do
    let spec ← documentArgument name argument
    sort rows spec
  else if name = "$skip" then do
    let count ← countArgument name argument
    return rows.drop count
  else if name = "$limit" then do
    let count ← countArgument name argument
    if count = 0 then throw (.store .zeroLimit) else return rows.take count
  else .error (.store (.unknownStage name))

def run (rows : List Document) : List Document → Except Error (List Document)
  | [] => .ok rows
  | stage :: rest =>
    match stage with
    | [] => .error (.store .emptyStage)
    | (name, argument) :: _ => do
      let after ← runStage name argument rows
      run after rest

end Pipeline
end RelDoc
