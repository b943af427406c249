import RelDoc.Command.Basic
import RelDoc.Value.Binary
import RelDoc.Writer.Binding
import RelDoc.Writer.Builder
import RelDoc.Writer.JsonText

/-!
# Commands written out

Every part of a command as the events that write it, depth first and in the order given. Sent to a
`Builder` they make the document of the command, sent to a `JsonText` its text, and through a
`Binding` the same with the values of the parameters in their places.
-/

namespace RelDoc

namespace Event

/-- A document around the events of its fields. -/
def inDocument (fields : List Event) : List Event := startDocument :: fields ++ [endDocument]

/-- An array around the events of its items. -/
def inArray (items : List Event) : List Event := startArray :: items ++ [endArray]

/-- A name in front of the events of its value. -/
def field (key : String) (value : List Event) : List Event := name key :: value

end Event

namespace Term

mutual
def events : Term → List Event
  | literal v => [.scalar v]
  | placeholder n => [.placeholder n]
  | template fields => Event.inDocument (fieldEvents fields)

def fieldEvents : List (String × Term) → List Event
  | [] => []
  | (k, t) :: rest => Event.field k (events t) ++ fieldEvents rest
end

end Term

namespace Filter

mutual
def events : Filter → List Event
  | all => Event.inDocument []
  | comparison path operator value =>
    Event.inDocument (Event.field path.text (Event.inDocument (Event.field operator.token value.events)))
  | combination operator parts =>
    Event.inDocument (Event.field operator.token (Event.inArray (listEvents parts)))

def listEvents : List Filter → List Event
  | [] => []
  | f :: rest => events f ++ listEvents rest
end

end Filter

namespace Projection

def events (p : Projection) : List Event := Event.field p.field.text [.boolean p.included]

end Projection

namespace SortKey

def events (k : SortKey) : List Event := Event.field k.field.text [.int32 k.direction.sign]

end SortKey

namespace FieldUpdate

def events (u : FieldUpdate) : List Event := Event.field u.field.text u.value.events

end FieldUpdate

namespace Stage

/-- The events of what stands under the stage's name. -/
def argumentEvents : Stage → List Event
  | filter f => f.events
  | project fields => Event.inDocument (fields.flatMap Projection.events)
  | sort keys => Event.inDocument (keys.flatMap SortKey.events)
  | skip count => count.events
  | limit count => count.events

def events (s : Stage) : List Event := Event.inDocument (Event.field s.name s.argumentEvents)

end Stage

namespace Command

/-- The events of the items of the part that follows the collection. -/
def partEvents : Command → List Event
  | insert _ documents => documents.flatMap fun d => (Term.template d).events
  | update _ filter updates =>
    Event.inDocument (Event.field "q" filter.events ++
      Event.field "u" (Event.inDocument (Event.field FieldClause.set.token
        (Event.inDocument (updates.flatMap FieldUpdate.events)))) ++
      Event.field "multi" [.boolean (!filter.pinsId)])
  | delete _ filter =>
    Event.inDocument (Event.field "q" filter.events ++ Event.field "limit" [.int32 0])
  | aggregate _ pipeline => pipeline.flatMap Stage.events

def events (c : Command) : List Event :=
  Event.inDocument (Event.field c.name [.string c.collection] ++
    Event.field c.partName (Event.inArray c.partEvents))

/-- The state of a writer after the events, unless it refuses one. -/
def writeTo {ω : Type} [Writer ω] (w : ω) (events : List Event) : Except Error ω :=
  match Writer.sendAll w events with
  | (.ok (), w') => .ok w'
  | (.error err, _) => .error err

/-- The document of a command, with `undefined` in the places of parameters. -/
def toDocument (c : Command) : Except Error Document := do (← writeTo ({} : Builder) c.events).finish

/-- The text of a command, with `undefined` in the places of parameters. -/
def toJson (c : Command) : Except Error String := do (← writeTo ({} : JsonText) c.events).finish

def toBytes (c : Command) : Except Error (List UInt8) := do
  let d ← c.toDocument
  match Value.documentBytes d with
  | .ok data => return data
  | .error name => throw (.nameWithZero name)

def bind (c : Command) (values : List Value) : Except Error Document := do
  let w ← writeTo (Binding.ofValues ({} : Builder) values) c.events
  (← w.finish).finish

def bindJson (c : Command) (values : List Value) : Except Error String := do
  let w ← writeTo (Binding.ofValues ({} : JsonText) values) c.events
  (← w.finish).finish

end Command
end RelDoc
