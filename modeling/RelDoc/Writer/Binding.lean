import RelDoc.Writer.Basic

/-!
# Binding parameters while writing

A `Binding` stands in front of another writer and puts the value of a parameter wherever its place
is written. It remembers which values were asked for, whether or not the writer behind it took
them, and is finished only when all were.
-/

namespace RelDoc

/-- A writer with the values of the parameters. -/
structure Binding (ω : Type) where
  inner : ω
  values : List Value
  /-- Which of the values were asked for. -/
  used : List Bool

namespace Binding

variable {ω : Type}

def ofValues (inner : ω) (values : List Value) : Binding ω :=
  { inner, values, used := values.map fun _ => false }

def forward [Writer ω] (b : Binding ω) (e : Event) : Except Error Unit × Binding ω :=
  let (answer, inner) := Writer.send b.inner e
  (answer, { b with inner })

/-- Takes one event, with the value of a parameter in its place. -/
def send [Writer ω] (b : Binding ω) : Event → Except Error Unit × Binding ω
  | .placeholder position =>
    match b.values[position]? with
    | none => (.error (.missingParameter position b.values.length), b)
    | some v => forward { b with used := b.used.set position true } (.scalar v)
  | e => b.forward e

instance [Writer ω] : Writer (Binding ω) := ⟨send⟩

/-- The writer behind, once every value was asked for. -/
def finish (b : Binding ω) : Except Error ω :=
  match b.used.findIdx? (· = false) with
  | some position => .error (.unusedParameter position b.values.length)
  | none => .ok b.inner

end Binding
end RelDoc
