import RelDoc.Writer.Basic

/-!
# Building a document from events

A `Builder` keeps the open containers, the innermost first, and the finished root document. A value
goes under the pending name of the innermost document or to the end of the innermost array. The end
of a document closes the innermost container whether or not it may end there; the end of an array
inside a document closes nothing.
-/

namespace RelDoc

inductive Frame where
  /-- A document and the name whose value comes next. -/
  | document (fields : Document) (pending : Option String)
  | array (items : List Value)

/-- The open containers and the finished document. -/
structure Builder where
  frames : List Frame := []
  root : Option Document := none

namespace Builder

/-- Puts a value where the innermost container expects one. -/
def append (v : Value) (b : Builder) : Except Error Unit × Builder :=
  match b.frames with
  | .document fields (some name) :: rest =>
    Writer.accept { b with frames := .document (Dict.insert fields name v) none :: rest }
  | .document _ none :: _ => Writer.refuse .valueWithoutName b
  | .array items :: rest => Writer.accept { b with frames := .array (items ++ [v]) :: rest }
  | [] => Writer.refuse .valueOutside b

/-- Opens a container where a value may stand, or the root document. -/
def start (frame : Frame) (b : Builder) : Except Error Unit × Builder :=
  match b.frames, b.root with
  | .document _ none :: _, _ => Writer.refuse .containerWithoutName b
  | [], some _ => Writer.refuse .rootWritten b
  | _, _ => Writer.accept { b with frames := frame :: b.frames }

def startArray (b : Builder) : Except Error Unit × Builder :=
  if b.frames.isEmpty then Writer.refuse .arrayOutside b else b.start (.array [])

/-- Closes the innermost container, which has to be a document without a pending name. -/
def endDocument (b : Builder) : Except Error Unit × Builder :=
  match b.frames with
  | .document fields none :: rest =>
    if rest.isEmpty then Writer.accept { frames := [], root := some fields }
    else append (.document fields) { b with frames := rest }
  | .document _ (some name) :: rest => Writer.refuse (.fieldWithoutValue (some name)) { b with frames := rest }
  | .array _ :: rest => Writer.refuse .endDocumentInArray { b with frames := rest }
  | [] => Writer.refuse .endDocumentUnopened b

def endArray (b : Builder) : Except Error Unit × Builder :=
  match b.frames with
  | .array items :: rest => append (.array items) { b with frames := rest }
  | .document _ _ :: _ => Writer.refuse .endArrayInDocument b
  | [] => Writer.refuse .endArrayUnopened b

def name (s : String) (b : Builder) : Except Error Unit × Builder :=
  match b.frames with
  | .document fields none :: rest => Writer.accept { b with frames := .document fields (some s) :: rest }
  | .document _ (some previous) :: _ => Writer.refuse (.namedTwice s (some previous)) b
  | _ => Writer.refuse (.nameOutside s) b

/-- Takes one event; the place of a parameter is built as `undefined`. -/
def send (b : Builder) : Event → Except Error Unit × Builder
  | .startDocument => b.start (.document [] none)
  | .endDocument => b.endDocument
  | .startArray => b.startArray
  | .endArray => b.endArray
  | .name s => b.name s
  | .string s => b.append (.string s)
  | .int32 n => b.append (.int32 n)
  | .int64 n => b.append (.int64 n)
  | .double d => b.append (.double d)
  | .boolean t => b.append (.boolean t)
  | .undefined => b.append .undefined
  | .value v => b.append v
  | .placeholder _ => b.append .undefined

instance : Writer Builder := ⟨send⟩

theorem send_of_value? {e : Event} {v : Value} (h : e.value? = some v) (b : Builder) :
    Writer.send b e = b.append v := by
  cases e <;> cases h <;> rfl

def finish (b : Builder) : Except Error Document :=
  if ¬ b.frames.isEmpty then .error (.assertion (.writer .openContainers))
  else
    match b.root with
    | some d => .ok d
    | none => .error (.assertion (.writer .noRoot))

end Builder
end RelDoc
