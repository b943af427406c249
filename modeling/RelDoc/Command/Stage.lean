import RelDoc.Command.Filter

/-!
# Stages of a pipeline

The stages of an aggregation. A list of projected or sorted fields is not empty and names no field
twice; a count is the place of a parameter or an integer that is large enough.
-/

namespace RelDoc

/-- Whether a field is kept or left out. -/
structure Projection where
  field : FieldPath
  included : Bool

structure SortKey where
  field : FieldPath
  direction : Direction

namespace Direction

/-- The number that stands for the direction in documents. -/
def sign : Direction → Int32
  | ascending => 1
  | descending => -1

end Direction

inductive Stage where
  | filter (f : Filter)
  | project (fields : List Projection)
  | sort (keys : List SortKey)
  | skip (count : Term)
  | limit (count : Term)

/-- Refuses a repeated field, then an empty list. -/
def checkFields (clause : FieldClause) (fields : List FieldPath) : Except Error Unit :=
  match firstRepeated [] (fields.map FieldPath.text) with
  | some name => .error (.assertion (.fieldNamedTwice clause name))
  | none => if fields.isEmpty then .error (.assertion (.noFields clause)) else .ok ()

/-- Lets through the place of a parameter and integers from `stage.least` on. -/
def checkCount (stage : CountStage) (count : Term) : Except Error Unit :=
  match count with
  | .placeholder _ => .ok ()
  | .template _ => .error (.unsupported (.countDocument stage))
  | .literal v =>
    let large : Bool :=
      match v with
      | .int32 n => stage.least ≤ n.toInt
      | .int64 n => stage.least ≤ n.toInt
      | _ => false
    if large then .ok () else .error (.unsupported (.countValue stage v))

namespace CountStage

/-- The stage with a count. -/
def stage : CountStage → Term → Stage
  | skip => .skip
  | limit => .limit

/-- Where a statement has the count. -/
def place : CountStage → ValuePlace
  | skip => .offset
  | limit => .fetch

end CountStage

namespace Stage

def ofProjections (fields : List Projection) : Except Error Stage := do
  checkFields .project (fields.map Projection.field)
  return .project fields

def ofSortKeys (keys : List SortKey) : Except Error Stage := do
  checkFields .sort (keys.map SortKey.field)
  return .sort keys

def ofCount (kind : CountStage) (count : Term) : Except Error Stage := do
  checkCount kind count
  return kind.stage count

def name : Stage → String
  | filter _ => "$match"
  | project _ => "$project"
  | sort _ => "$sort"
  | skip _ => "$skip"
  | limit _ => "$limit"

/-- What the constructors guarantee. -/
def WellFormed : Stage → Prop
  | filter f => f.WellFormed
  | project fields => checkFields .project (fields.map Projection.field) = .ok ()
  | sort keys => checkFields .sort (keys.map SortKey.field) = .ok ()
  | skip count => checkCount .skip count = .ok () ∧ count.WellFormed
  | limit count => checkCount .limit count = .ok () ∧ count.WellFormed

/-- The positions of the parameters in a stage, in order of writing. -/
def positions : Stage → List Nat
  | filter f => f.positions
  | project _ => []
  | sort _ => []
  | skip count => count.positions
  | limit count => count.positions

/-- What stands under the stage's name when the parameters have the values that `σ` gives. -/
def argument (σ : Nat → Value) : Stage → Value
  | filter f => .document (f.fill σ)
  | project fields => .document (fields.map fun p => (p.field.text, .boolean p.included))
  | sort keys => .document (keys.map fun k => (k.field.text, .int32 k.direction.sign))
  | skip count => count.fill σ
  | limit count => count.fill σ

def fill (σ : Nat → Value) (s : Stage) : Document := [(s.name, s.argument σ)]

end Stage

namespace CountStage

variable (kind : CountStage) (count : Term)

@[simp] theorem positions_stage : (kind.stage count).positions = count.positions := by cases kind <;> rfl

theorem fill_stage (σ : Nat → Value) : (kind.stage count).fill σ = [(kind.token, count.fill σ)] := by
  cases kind <;> rfl

theorem wellFormed_stage :
    (kind.stage count).WellFormed ↔ checkCount kind count = .ok () ∧ count.WellFormed := by cases kind <;> rfl

end CountStage
end RelDoc
