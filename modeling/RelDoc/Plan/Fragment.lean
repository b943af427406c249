import RelDoc.Command.Basic

/-!
# Fragments

What the nodes of a statement turn into when it is planned, and how fragments of every kind travel through
one exchange.
-/

namespace RelDoc

/-- An expression stands for a field or for a value. -/
inductive Operand where
  | field (path : FieldPath)
  | value (t : Term)

inductive Fragment where
  | command (c : Command)
  | operand (o : Operand)
  | filter (f : Filter)
  | collection (name : String)
  | document (d : Template)
  | update (u : FieldUpdate)
  | projection (p : Projection)
  | sortKey (k : SortKey)

namespace Fragment

def kind : Fragment → FragmentKind
  | command _ => .command
  | operand _ => .operand
  | filter _ => .filter
  | collection _ => .collection
  | document _ => .document
  | update _ => .update
  | projection _ => .projection
  | sortKey _ => .sortKey

instance : Kinded Fragment FragmentKind := ⟨kind⟩

end Fragment

/-- A type whose values are the fragments of one kind. -/
class IsFragment (α : Type) where
  kind : FragmentKind
  wrap : α → Fragment
  unwrap : Fragment → Option α
  kind_wrap : ∀ a, (wrap a).kind = kind
  unwrap_wrap : ∀ a, unwrap (wrap a) = some a

instance : IsFragment Command where
  kind := .command
  wrap := .command
  unwrap | .command c => some c | _ => none
  kind_wrap _ := rfl
  unwrap_wrap _ := rfl

instance : IsFragment Operand where
  kind := .operand
  wrap := .operand
  unwrap | .operand o => some o | _ => none
  kind_wrap _ := rfl
  unwrap_wrap _ := rfl

instance : IsFragment Filter where
  kind := .filter
  wrap := .filter
  unwrap | .filter f => some f | _ => none
  kind_wrap _ := rfl
  unwrap_wrap _ := rfl

instance : IsFragment String where
  kind := .collection
  wrap := .collection
  unwrap | .collection name => some name | _ => none
  kind_wrap _ := rfl
  unwrap_wrap _ := rfl

instance : IsFragment Template where
  kind := .document
  wrap := .document
  unwrap | .document d => some d | _ => none
  kind_wrap _ := rfl
  unwrap_wrap _ := rfl

instance : IsFragment FieldUpdate where
  kind := .update
  wrap := .update
  unwrap | .update u => some u | _ => none
  kind_wrap _ := rfl
  unwrap_wrap _ := rfl

instance : IsFragment Projection where
  kind := .projection
  wrap := .projection
  unwrap | .projection p => some p | _ => none
  kind_wrap _ := rfl
  unwrap_wrap _ := rfl

instance : IsFragment SortKey where
  kind := .sortKey
  wrap := .sortKey
  unwrap | .sortKey k => some k | _ => none
  kind_wrap _ := rfl
  unwrap_wrap _ := rfl

end RelDoc
