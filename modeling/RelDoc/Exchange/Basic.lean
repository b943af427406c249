/-!
# Handing values to an enclosing scope

An `Exchange` is a stack of scopes. Each scope expects one value of one kind and holds at most one.
`enter` opens a scope, `yield` hands a value to the innermost one and `leave` closes it and takes
the value out. A value of another kind, a second value and a value outside of any scope are
refused, and a refusal leaves the exchange as it was.
-/

namespace RelDoc

universe u v

/-- Values that know of which kind they are. -/
class Kinded (V : Type u) (κ : outParam (Type v)) where
  kindOf : V → κ

namespace Exchange

/-- What the exchange refuses, or finds wrong at the end of a scope. -/
inductive Fault (κ : Type v) where
  /-- A value came outside of any scope. -/
  | outside (got : κ)
  | wrongKind (expected got : κ)
  | occupied (expected : κ)
  /-- A scope ended without a value. -/
  | missing (expected : κ)
  /-- A scope ended that was never opened. -/
  | unopened
  | closedAs (expected got : κ)
  /-- A scope held a value of a kind that it does not expect. -/
  | mixedUp (expected : κ)
deriving DecidableEq

namespace Fault

variable {κ : Type v}

/-- The wording, given the names of the kinds. -/
def message (name : κ → String) : Fault κ → String
  | outside got => name got ++ " yielded outside of execute"
  | wrongKind expected got =>
    "expected a " ++ name expected ++ " to be yielded but got a " ++ name got
  | occupied expected => "a " ++ name expected ++ " was already yielded in this scope"
  | missing expected => "no " ++ name expected ++ " was yielded"
  | unopened => "value exchange stack is empty"
  | closedAs expected got =>
    "value exchange frame for " ++ name expected ++ " closed as " ++ name got
  | mixedUp expected => "slot did not hold a " ++ name expected

end Fault

/-- A scope: the kind of value it expects and the value it was handed. -/
structure Scope (κ : Type v) (V : Type u) where
  expected : κ
  held : Option V := none

end Exchange

/-- The open scopes, the innermost first. -/
structure Exchange (κ : Type v) (V : Type u) where
  scopes : List (Exchange.Scope κ V) := []

namespace Exchange

variable {κ : Type v} {V : Type u}

def depth (x : Exchange κ V) : Nat := x.scopes.length

def enter (kind : κ) (x : Exchange κ V) : Exchange κ V := ⟨{ expected := kind } :: x.scopes⟩

variable [DecidableEq κ] [Kinded V κ]

/-- Hands a value to the innermost scope. -/
def yield (v : V) (x : Exchange κ V) : Except (Fault κ) (Exchange κ V) :=
  match x.scopes with
  | [] => .error (.outside (Kinded.kindOf v))
  | scope :: rest =>
    if scope.expected ≠ Kinded.kindOf v then .error (.wrongKind scope.expected (Kinded.kindOf v))
    else if scope.held.isSome then .error (.occupied scope.expected)
    else .ok ⟨{ scope with held := some v } :: rest⟩

/-- Closes the innermost scope, which is taken to expect the given kind, and gives its value. The
scope is gone whatever the answer. -/
def leave (kind : κ) (x : Exchange κ V) : Except (Fault κ) V × Exchange κ V :=
  match x.scopes with
  | [] => (.error .unopened, x)
  | scope :: rest =>
    let answer :=
      if scope.expected ≠ kind then .error (.closedAs scope.expected kind)
      else
        match scope.held with
        | none => .error (.missing scope.expected)
        | some v => if Kinded.kindOf v = kind then .ok v else .error (.mixedUp scope.expected)
    (answer, ⟨rest⟩)

end Exchange
end RelDoc
