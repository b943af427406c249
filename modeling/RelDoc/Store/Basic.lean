import RelDoc.Store.Pipeline

/-!
# A document store in memory

A `Store` holds the documents of each collection in the order of their insertion. `Store.execute`
carries out one command document and answers with a count or with rows; the store that a failing
command leaves is part of the answer, since an insertion that is refused still opens its collection
and the specifications of an update or delete take effect one after another.

Documents that come without a primary key get a fresh identifier as their first field. The supply
of identifiers is an argument: `fresh n` is the identifier issued after `n` others.
-/

namespace RelDoc

/-- The collections and the number of identifiers issued so far. -/
structure Store where
  collections : Dict (List Document) := []
  issued : Nat := 0

inductive Answer where
  | affected (count : Nat)
  | rows (documents : List Document)

namespace Answer

/-- The count of a command that changes documents. -/
def count : Answer → Except Error Nat
  | affected n => .ok n
  | rows _ => .error (.store .rowsForCount)

/-- The rows of a command that reads documents. -/
def toRows : Answer → Except Error (List Document)
  | rows documents => .ok documents
  | affected _ => .error (.store .countForRows)

end Answer

namespace Store

/-- The documents of a collection; one that was never opened has none. -/
def documents (s : Store) (collection : String) : List Document :=
  (Dict.get? s.collections collection).getD []

def withDocuments (s : Store) (collection : String) (documents : List Document) : Store :=
  { s with collections := Dict.insert s.collections collection documents }

/-- Adds documents to a collection without any check. -/
def seed (s : Store) (collection : String) (documents : List Document) : Store :=
  s.withDocuments collection (s.documents collection ++ documents)

def commandString (command : Document) (key : String) : Except Error String :=
  match (Dict.get? command key).bind Value.string? with
  | some s => .ok s
  | none => .error (.store (.missingString key))

/-- The array of documents under a name of a command. -/
def commandDocuments (command : Document) (key : String) : Except Error (List Document) :=
  match Dict.get? command key with
  | some (.array items) =>
    match documentsOf? items with
    | some ds => .ok ds
    | none => .error (.store (.nonDocuments key))
  | _ => .error (.store (.missingArray key))

def subDocument (d : Document) (key : String) : Except Error Document :=
  match (Dict.get? d key).bind Value.document? with
  | some inner => .ok inner
  | none => .error (.store (.missingDocument key))

/-- Puts fresh identifiers in front of the documents without a primary key; the number is that of
the identifiers issued. -/
def identify (fresh : Nat → ObjectId) (issued : Nat) : List Document → List Document × Nat
  | [] => ([], issued)
  | d :: rest =>
    if Dict.contains d idField then
      let (more, n) := identify fresh issued rest
      (d :: more, n)
    else
      let (more, n) := identify fresh (issued + 1) rest
      (((idField, .objectId (fresh issued)) :: d) :: more, n)

def sameId (a b : Document) : Bool :=
  match Dict.get? a idField, Dict.get? b idField with
  | some x, some y => x.same y
  | none, none => true
  | _, _ => false

/-- Refuses the first document whose primary key occurs before it. -/
def checkIds (collection : String) (present : List Document) : List Document → Except Error Unit
  | [] => .ok ()
  | d :: rest =>
    if present.any (sameId · d) then
      .error (.store (.duplicateKey collection ((Dict.get? d idField).getD .null)))
    else checkIds collection (present ++ [d]) rest

def insert (fresh : Nat → ObjectId) (s : Store) (collection : String) (command : Document) :
    Except Error Answer × Store :=
  match commandDocuments command "documents" with
  | .error e => (.error e, s)
  | .ok given =>
    let (incoming, issued) := identify fresh s.issued given
    let present := s.documents collection
    let opened := { s.withDocuments collection present with issued }
    match checkIds collection present incoming with
    | .error e => (.error e, opened)
    | .ok () => (.ok (.affected incoming.length), opened.withDocuments collection (present ++ incoming))

structure UpdateSpec where
  filter : Document
  set : Document
  extent : Extent

namespace UpdateSpec

def ofDocument (spec : Document) : Except Error UpdateSpec := do
  let filter ← subDocument spec "q"
  let update ← subDocument spec "u"
  let set ← subDocument update "$set"
  let extent : Extent :=
    match Dict.get? spec "multi" with
    | some (.boolean true) => .every
    | _ => .first
  if Dict.contains set idField then throw (.store .immutableId)
  return { filter, set, extent }

end UpdateSpec

structure DeleteSpec where
  filter : Document
  extent : Extent

namespace DeleteSpec

/-- How many documents a limit lets through. -/
def extentOf (limit : Option Value) : Except Error Extent :=
  match limit with
  | some (.int32 n) => if n = 0 then .ok .every else if n = 1 then .ok .first else .error (.store (.deleteLimit limit))
  | some (.int64 n) => if n = 0 then .ok .every else if n = 1 then .ok .first else .error (.store (.deleteLimit limit))
  | _ => .error (.store (.deleteLimit limit))

def ofDocument (spec : Document) : Except Error DeleteSpec := do
  let filter ← subDocument spec "q"
  let extent ← extentOf (Dict.get? spec "limit")
  return { filter, extent }

end DeleteSpec

def setMarked (set : Document) : List Bool → List Document → List Document
  | hit :: hits, d :: ds => (if hit then Dict.insertAll d set else d) :: setMarked set hits ds
  | _, ds => ds

def dropMarked : List Bool → List Document → List Document
  | hit :: hits, d :: ds => if hit then dropMarked hits ds else d :: dropMarked hits ds
  | _, ds => ds

/-- Carries out one specification of an update on the documents of a collection; the number is that
of the documents matched. -/
def updateOnce (spec : Document) (ds : List Document) : Except Error (Nat × List Document) := do
  let u ← UpdateSpec.ofDocument spec
  let hits ← marks u.filter u.extent ds
  return (hits.count true, setMarked u.set hits ds)

/-- Carries out one specification of a delete on the documents of a collection; the number is that
of the documents dropped. -/
def deleteOnce (spec : Document) (ds : List Document) : Except Error (Nat × List Document) := do
  let u ← DeleteSpec.ofDocument spec
  let hits ← marks u.filter u.extent ds
  return (hits.count true, dropMarked hits ds)

/-- Carries out specifications up to the first that fails, each on what the one before it left. -/
def applySpecs (step : Document → List Document → Except Error (Nat × List Document)) (total : Nat)
    (ds : List Document) : List Document → Except Error Nat × List Document
  | [] => (.ok total, ds)
  | spec :: rest =>
    match step spec ds with
    | .error e => (.error e, ds)
    | .ok (n, after) => applySpecs step (total + n) after rest

/-- Carries out the specifications under a name of a command; nothing is looked at where there is
no collection. -/
def mutate (step : Document → List Document → Except Error (Nat × List Document)) (key : String)
    (s : Store) (collection : String) (command : Document) : Except Error Answer × Store :=
  match commandDocuments command key with
  | .error e => (.error e, s)
  | .ok specs =>
    match Dict.get? s.collections collection with
    | none => (.ok (.affected 0), s)
    | some ds =>
      let (outcome, after) := applySpecs step 0 ds specs
      (outcome.map Answer.affected, s.withDocuments collection after)

def update (s : Store) (collection : String) (command : Document) : Except Error Answer × Store :=
  mutate updateOnce "updates" s collection command

def delete (s : Store) (collection : String) (command : Document) : Except Error Answer × Store :=
  mutate deleteOnce "deletes" s collection command

def aggregate (s : Store) (collection : String) (command : Document) : Except Error Answer := do
  let stages ← commandDocuments command "pipeline"
  let rows ← Pipeline.run (s.documents collection) stages
  return .rows rows

/-- Carries out a command document. Its first name tells which command it is, and the string under
that name is the collection. -/
def execute (fresh : Nat → ObjectId) (s : Store) (command : Document) : Except Error Answer × Store :=
  match command with
  | [] => (.error (.store .emptyCommand), s)
  | (name, _) :: _ =>
    match commandString command name with
    | .error e => (.error e, s)
    | .ok collection =>
      if name = "insert" then insert fresh s collection command
      else if name = "update" then update s collection command
      else if name = "delete" then delete s collection command
      else if name = "aggregate" then (aggregate s collection command, s)
      else (.error (.store (.unknownCommand name)), s)

end Store
end RelDoc
