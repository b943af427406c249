import RelDoc.Command.Stage

/-!
# Commands

The four commands of a document database as trees with places for parameters. `Command.fill` is the
document of a command: what stands where in it, and in which order, for given values of the
parameters.
-/

namespace RelDoc

structure FieldUpdate where
  field : FieldPath
  value : Term

inductive Command where
  | insert (collection : String) (documents : List Template)
  | update (collection : String) (filter : Filter) (updates : List FieldUpdate)
  | delete (collection : String) (filter : Filter)
  | aggregate (collection : String) (pipeline : List Stage)

namespace Command

/-- An insertion of at least one document. -/
def ofDocuments (collection : String) (documents : List Template) : Except Error Command :=
  if documents.isEmpty then .error (.assertion .emptyInsert) else .ok (.insert collection documents)

/-- An update of at least one field, each named once. -/
def ofUpdates (collection : String) (filter : Filter) (updates : List FieldUpdate) : Except Error Command := do
  checkFields .set (updates.map FieldUpdate.field)
  return .update collection filter updates

/-- The name of the command, which is also the first name in its document. -/
def name : Command → String
  | insert _ _ => "insert"
  | update _ _ _ => "update"
  | delete _ _ => "delete"
  | aggregate _ _ => "aggregate"

def collection : Command → String
  | insert c _ => c
  | update c _ _ => c
  | delete c _ => c
  | aggregate c _ => c

/-- Does an update or a delete work on the one document that its filter pins? Other commands do not
make the distinction. -/
def isSingle? : Command → Option Bool
  | insert _ _ => none
  | update _ filter _ => some filter.pinsId
  | delete _ filter => some filter.pinsId
  | aggregate _ _ => none

/-- What the constructors guarantee. -/
def WellFormed : Command → Prop
  | insert _ documents => documents ≠ [] ∧ ∀ d ∈ documents, (Term.template d).WellFormed
  | update _ filter updates =>
    filter.WellFormed ∧ checkFields .set (updates.map FieldUpdate.field) = .ok () ∧
      ∀ u ∈ updates, u.value.WellFormed
  | delete _ filter => filter.WellFormed
  | aggregate _ pipeline => ∀ s ∈ pipeline, s.WellFormed

/-- The positions of the parameters in a command, in order of writing. -/
def positions : Command → List Nat
  | insert _ documents => documents.flatMap fun d => (Term.template d).positions
  | update _ filter updates => filter.positions ++ updates.flatMap fun u => u.value.positions
  | delete _ filter => filter.positions
  | aggregate _ pipeline => pipeline.flatMap Stage.positions

/-- The name of the part that follows the collection. -/
def partName : Command → String
  | insert _ _ => "documents"
  | update _ _ _ => "updates"
  | delete _ _ => "deletes"
  | aggregate _ _ => "pipeline"

/-- The items of that part when the parameters have the values that `σ` gives. -/
def parts (σ : Nat → Value) : Command → List Value
  | insert _ documents => documents.map fun d => (Term.template d).fill σ
  | update _ filter updates =>
    [.document
      [("q", .document (filter.fill σ)),
        ("u", .document [(FieldClause.set.token,
          .document (updates.map fun u => (u.field.text, u.value.fill σ)))]),
        ("multi", .boolean (!filter.pinsId))]]
  | delete _ filter => [.document [("q", .document (filter.fill σ)), ("limit", .int32 0)]]
  | aggregate _ pipeline => pipeline.map fun s => .document (s.fill σ)

/-- The document of a command whose parameters have the values that `σ` gives. -/
def fill (σ : Nat → Value) (c : Command) : Document :=
  [(c.name, .string c.collection), (c.partName, .array (c.parts σ))]

end Command
end RelDoc
