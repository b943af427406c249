import RelDoc.Command.Render
import RelDoc.Mapping.Config
import RelDoc.Plan.Visit
import RelDoc.Store.Basic

/-!
# Sessions

A session carries out relational statements on a store: the statement becomes a command, the values
of its parameters are bound by position, and the finished command document is executed.
-/

namespace RelDoc

/-- A way to plan statements, a store and the supply of its identifiers. -/
structure Session where
  dialect : Dialect
  fresh : Nat → ObjectId
  store : Store := {}

namespace Session

/-- A session on the tables of a valid configuration, with every type kept as it is. -/
def ofConfig (c : Config) (fresh : Nat → ObjectId) (store : Store) : Except Error Session := do
  c.validate
  return { dialect := { catalog := c.catalog, codec := .exact }, fresh, store }

def encodeAll (codec : Codec) : List Scalar → Except Error (List Value)
  | [] => .ok []
  | v :: rest => do
    let w ← codec.encode v
    let more ← encodeAll codec rest
    return w :: more

/-- The command document of a statement with the values of its parameters. -/
def render (d : Dialect) (s : Statement) (parameters : List Scalar) : Except Error Document := do
  let command ← d.commandOf s
  let values ← encodeAll d.codec parameters
  command.bind values

def run (session : Session) (command : Document) : Except Error Answer × Session :=
  let (answer, store) := session.store.execute session.fresh command
  (answer, { session with store })

def execute (session : Session) (s : Statement) (parameters : List Scalar) : Except Error Answer × Session :=
  match render session.dialect s parameters with
  | .error e => (.error e, session)
  | .ok command => session.run command

/-- Carries out a statement that changes rows. -/
def affected (session : Session) (s : Statement) (parameters : List Scalar) : Except Error Nat × Session :=
  let (answer, after) := session.execute s parameters
  (answer.bind Answer.count, after)

/-- Carries out a statement that reads rows. -/
def query (session : Session) (s : Statement) (parameters : List Scalar) :
    Except Error (List Document) × Session :=
  let (answer, after) := session.execute s parameters
  (answer.bind Answer.toRows, after)

/-- The scalars of a row under their field names, in order. -/
def decode (codec : Codec) : Document → Except Error (List (String × Scalar))
  | [] => .ok []
  | (name, v) :: rest => do
    let scalar ← codec.decode v
    let more ← decode codec rest
    return (name, scalar) :: more

end Session
end RelDoc
