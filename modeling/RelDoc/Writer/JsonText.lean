import RelDoc.Value.Extended
import RelDoc.Writer.Basic

/-!
# Writing a document as JSON text

A `JsonText` writes compact relaxed extended JSON. Beside the text it keeps, for every open
container, only whether something stands in it yet and, for a document, whether a name waits for
its value.
-/

namespace RelDoc

/-- What has to be known of an open container. -/
inductive JsonFrame where
  | document (isEmpty isNamed : Bool)
  | array (isEmpty : Bool)
deriving DecidableEq

/-- The text so far, the open containers and whether the root document is complete. -/
structure JsonText where
  output : String := ""
  frames : List JsonFrame := []
  finished : Bool := false

namespace JsonText

def push (w : JsonText) (text : String) : JsonText := { w with output := w.output ++ text }

/-- Puts `text` where a value may stand and replaces the innermost container by what it is then;
`more` opens a container after the text. -/
def writeValue (text : String) (more : List JsonFrame) (w : JsonText) : Except Error Unit × JsonText :=
  match w.frames with
  | .document isEmpty true :: rest =>
    Writer.accept { w.push text with frames := more ++ .document isEmpty false :: rest }
  | .document _ false :: _ => Writer.refuse .valueWithoutName w
  | .array isEmpty :: rest =>
    Writer.accept { w.push ((if isEmpty then "" else ",") ++ text) with frames := more ++ .array false :: rest }
  | [] => Writer.refuse .valueOutside w

def startDocument (w : JsonText) : Except Error Unit × JsonText :=
  if w.frames.isEmpty then
    if w.finished then Writer.refuse .rootWritten w
    else Writer.accept { w.push "\x7b" with frames := [.document true false] }
  else w.writeValue "\x7b" [.document true false]

/-- Closes the innermost container, which has to be a document without a waiting name. -/
def endDocument (w : JsonText) : Except Error Unit × JsonText :=
  match w.frames with
  | .document _ false :: rest =>
    Writer.accept { w.push "\x7d" with frames := rest, finished := rest.isEmpty }
  | .document _ true :: rest => Writer.refuse (.fieldWithoutValue none) { w with frames := rest }
  | .array _ :: rest => Writer.refuse .endDocumentInArray { w with frames := rest }
  | [] => Writer.refuse .endDocumentUnopened w

def endArray (w : JsonText) : Except Error Unit × JsonText :=
  match w.frames with
  | .array _ :: rest => Writer.accept { w.push "]" with frames := rest }
  | .document _ _ :: _ => Writer.refuse .endArrayInDocument w
  | [] => Writer.refuse .endArrayUnopened w

def name (s : String) (w : JsonText) : Except Error Unit × JsonText :=
  match w.frames with
  | .document isEmpty false :: rest =>
    Writer.accept { w.push ((if isEmpty then "" else ",") ++ Quoted.encode s ++ ":") with
      frames := .document false true :: rest }
  | .document _ true :: _ => Writer.refuse (.namedTwice s none) w
  | _ => Writer.refuse (.nameOutside s) w

def undefinedText : String := "\x7b\"$undefined\":true\x7d"

/-- Takes one event; the place of a parameter is written as `undefined`. -/
def send (w : JsonText) : Event → Except Error Unit × JsonText
  | .startDocument => w.startDocument
  | .endDocument => w.endDocument
  | .startArray => w.writeValue "[" [.array true]
  | .endArray => w.endArray
  | .name s => w.name s
  | .string s => w.writeValue (Quoted.encode s) []
  | .int32 n => w.writeValue (toString n.toInt) []
  | .int64 n => w.writeValue (toString n.toInt) []
  | .double d => w.writeValue (Value.extendedDouble d).compact []
  | .boolean b => w.writeValue (if b then "true" else "false") []
  | .undefined => w.writeValue undefinedText []
  | .value v => w.writeValue v.extended.compact []
  | .placeholder _ => w.writeValue undefinedText []

instance : Writer JsonText := ⟨send⟩

theorem compact_undefined : Value.undefined.extended.compact = undefinedText := by rfl

/-- Whatever event writes a value, its text is the extended JSON of the value. -/
theorem send_of_value? {e : Event} {v : Value} (h : e.value? = some v) (w : JsonText) :
    Writer.send w e = w.writeValue v.extended.compact [] := by
  cases e with
  | undefined =>
    cases h
    rw [compact_undefined]
    rfl
  | _ => cases h <;> rfl

def finish (w : JsonText) : Except Error String :=
  if w.frames.isEmpty && w.finished then .ok w.output else .error (.assertion (.writer .incomplete))

end JsonText
end RelDoc
