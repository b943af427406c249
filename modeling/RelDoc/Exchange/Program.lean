import RelDoc.Exchange.Basic

/-!
# Programs of nested scopes

The programs that can be run on an exchange: they open scopes around bodies, yield values, fail,
and catch failures. A run keeps a log of the depths asked for, the values that scopes gave and the
failures that were caught.
-/

namespace RelDoc
namespace Exchange

universe u

variable {κ V ε : Type u}

/-- One step of a program. A caught failure is logged and the program goes on after the step. -/
inductive Step (κ V ε : Type u) where
  /-- Logs the number of open scopes. -/
  | depth
  /-- Runs the body in a scope of its own and logs the value it gave. -/
  | execute (kind : κ) (body : List (Step κ V ε)) (caught : Bool)
  | yield (v : V) (caught : Bool)
  | fail (e : ε) (caught : Bool)

/-- Why a program stopped: the exchange refused something, or the program failed by itself. -/
inductive Failure (κ ε : Type u) where
  | fault (f : Fault κ)
  | raised (e : ε)

/-- What a run notes. -/
inductive Entry (κ V ε : Type u) where
  | depth (n : Nat)
  | value (v : V)
  | caught (f : Failure κ ε)

/-- The outcome of a run, the exchange it leaves and its log. -/
structure Run (κ V ε : Type u) where
  outcome : Except (Failure κ ε) Unit
  exchange : Exchange κ V
  log : List (Entry κ V ε)

namespace Run

/-- Turns a failure into a log entry if it is to be caught. -/
def caughtIf (caught : Bool) (r : Run κ V ε) : Run κ V ε :=
  match r.outcome, caught with
  | .error f, true => { r with outcome := .ok (), log := r.log ++ [.caught f] }
  | _, _ => r

end Run

variable [DecidableEq κ] [Kinded V κ]

/-- Closes the scope of a body. The failure of the body comes before any fault of the scope. -/
def finish (kind : κ) (body : Run κ V ε) : Run κ V ε :=
  let (answer, left) := body.exchange.leave kind
  match body.outcome, answer with
  | .error f, _ => { body with exchange := left, outcome := .error f }
  | .ok (), .error fault => { body with exchange := left, outcome := .error (.fault fault) }
  | .ok (), .ok v => { body with exchange := left, log := body.log ++ [.value v] }

mutual
def Step.run (x : Exchange κ V) : Step κ V ε → Run κ V ε
  | .depth => ⟨.ok (), x, [.depth x.depth]⟩
  | .execute kind body caught => (finish kind (runAll (x.enter kind) body)).caughtIf caught
  | .yield v caught =>
    Run.caughtIf caught <|
      match x.yield v with
      | .ok y => ⟨.ok (), y, []⟩
      | .error fault => ⟨.error (.fault fault), x, []⟩
  | .fail e caught => Run.caughtIf caught ⟨.error (.raised e), x, []⟩

def runAll (x : Exchange κ V) : List (Step κ V ε) → Run κ V ε
  | [] => ⟨.ok (), x, []⟩
  | step :: rest =>
    let first := step.run x
    match first.outcome with
    | .error _ => first
    | .ok () =>
      let more := runAll first.exchange rest
      { more with log := first.log ++ more.log }
end

end Exchange
end RelDoc
