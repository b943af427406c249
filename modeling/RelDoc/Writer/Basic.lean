import RelDoc.Error

/-!
# Writing documents event by event

A document is written as a flat sequence of events. A `Writer` takes one event at a time and
answers whether it accepts it; the state that a refusal leaves is part of the answer, since a
caller may go on after it. `sendAll` stops at the first refusal.
-/

namespace RelDoc

inductive Event where
  | startDocument
  | endDocument
  | startArray
  | endArray
  /-- Names the next value of the current document. -/
  | name (s : String)
  | string (s : String)
  | int32 (n : Int32)
  | int64 (n : Int64)
  | double (d : Double)
  | boolean (b : Bool)
  | undefined
  /-- Any value as a single unit. -/
  | value (v : Value)
  /-- The place of a parameter's value. -/
  | placeholder (position : Nat)

namespace Event

/-- A value by the most specific event for its type. -/
def scalar : Value → Event
  | .string s => string s
  | .int32 n => int32 n
  | .int64 n => int64 n
  | .double d => double d
  | .boolean b => boolean b
  | .undefined => undefined
  | v => value v

/-- The value that an event writes all by itself. -/
def value? : Event → Option Value
  | string s => some (.string s)
  | int32 n => some (.int32 n)
  | int64 n => some (.int64 n)
  | double d => some (.double d)
  | boolean b => some (.boolean b)
  | undefined => some .undefined
  | value v => some v
  | _ => none

@[simp] theorem value?_scalar (v : Value) : (scalar v).value? = some v := by cases v <;> rfl

end Event

/-- A state that takes events. -/
class Writer (ω : Type) where
  /-- Takes one event; the second component is the state afterwards, also after a refusal. -/
  send : ω → Event → Except Error Unit × ω

namespace Writer

variable {ω : Type} [Writer ω]

/-- Sends events until one is refused. -/
def sendAll (w : ω) : List Event → Except Error Unit × ω
  | [] => (.ok (), w)
  | e :: rest =>
    match send w e with
    | (.ok (), w') => sendAll w' rest
    | (.error err, w') => (.error err, w')

@[simp] theorem sendAll_nil (w : ω) : sendAll w [] = (.ok (), w) := rfl

theorem sendAll_append (w : ω) (as bs : List Event) :
    sendAll w (as ++ bs) =
      match sendAll w as with
      | (.ok (), w') => sendAll w' bs
      | (.error err, w') => (.error err, w') := by
  induction as generalizing w with
  | nil => rfl
  | cons e rest ih =>
    simp only [List.cons_append, sendAll]
    split
    · exact ih _
    · rfl

/-- A refusal that leaves the given state. -/
def refuse (fault : WriterFault) (w : ω) : Except Error Unit × ω :=
  (.error (.assertion (.writer fault)), w)

/-- An accepted event that leads to the given state. -/
def accept (w : ω) : Except Error Unit × ω := (.ok (), w)

end Writer
end RelDoc
