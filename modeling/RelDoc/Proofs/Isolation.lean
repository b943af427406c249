import Mathlib.Tactic.ByContra
import RelDoc.Exchange.Program
import RelDoc.Plan.Fragment
import RelDoc.Proofs.Transparency

/-!
# Scopes of programs as local variables

A program runs on one stack of scopes, which its failures may leave at any point and go on from where they are
caught. Still every scope is a variable of the body that it was opened for. A run changes nothing but the
innermost scope that it finds, and that one only by the values that its own steps yield, not by those that
are yielded in scopes inside of it (`Fills`). So a scope leaves the exchange as it was and gives the failure of
its body, or else the first value of its kind that the body itself yielded (`run_execute`). The faults that
would mean a stack out of order are never seen (`Run.Orderly`).
-/

namespace RelDoc
namespace Exchange

universe u

variable {κ V ε : Type u} [DecidableEq κ] [Kinded V κ]

/-! ### Values handed over -/

/-- No scope is open, or the innermost one expects another kind or already holds a value. -/
def Refuses (x : Exchange κ V) (v : V) : Prop :=
  x.scopes = [] ∨ ∃ scope around, x.scopes = scope :: around ∧
    (scope.expected ≠ Kinded.kindOf v ∨ scope.held.isSome = true)

/-- Faults in the order of the stack itself. -/
def Fault.IsInternal : Fault κ → Prop
  | unopened | closedAs _ _ | mixedUp _ => True
  | outside _ | wrongKind _ _ | occupied _ | missing _ => False

theorem yield_refused {x : Exchange κ V} {v : V} (h : Refuses x v) :
    ∃ fault, x.yield v = .error fault ∧ ¬ fault.IsInternal := by
  obtain ⟨scopes⟩ := x
  rcases h with rfl | ⟨scope, around, rfl, hbad⟩
  · exact ⟨_, rfl, id⟩
  · by_cases hk : scope.expected ≠ Kinded.kindOf v
    · refine ⟨.wrongKind scope.expected (Kinded.kindOf v), ?_, id⟩
      simp only [yield, if_pos hk]
    · have hheld : scope.held.isSome = true := hbad.resolve_left hk
      refine ⟨.occupied scope.expected, ?_, id⟩
      simp only [yield, if_neg hk, if_pos hheld]

/-- Where a value is not refused, the innermost scope is empty and takes it. -/
theorem yield_taken {x : Exchange κ V} {v : V} (h : ¬ Refuses x v) :
    ∃ around, x.scopes = { expected := Kinded.kindOf v } :: around ∧
      x.yield v = .ok ⟨{ expected := Kinded.kindOf v, held := some v } :: around⟩ := by
  obtain ⟨scopes⟩ := x
  rcases scopes with _ | ⟨⟨expected, held⟩, around⟩
  · exact absurd (.inl rfl) h
  · have hk : expected = Kinded.kindOf v := by
      by_contra hne
      exact h (.inr ⟨_, around, rfl, .inl hne⟩)
    have hheld : held = none := by
      by_contra hne
      exact h (.inr ⟨_, around, rfl, .inr (Option.isSome_iff_ne_none.2 hne)⟩)
    subst hk hheld
    exact ⟨around, rfl, by simp [yield]⟩

/-! ### What a run does to the scopes -/

/-- The value that a step itself yields, if it is of the kind. A step that opens a scope yields none, whatever
is yielded in the scope. -/
def Step.yields? (kind : κ) : Step κ V ε → Option V
  | .yield v _ => if Kinded.kindOf v = kind then some v else none
  | .depth | .execute .. | .fail .. => none

/-- The first value of a kind that the steps themselves yield. -/
def firstOf (kind : κ) (steps : List (Step κ V ε)) : Option V := steps.findSome? (Step.yields? kind)

theorem firstOf_cons (kind : κ) (step : Step κ V ε) (rest : List (Step κ V ε)) :
    firstOf kind (step :: rest) = (step.yields? kind).or (firstOf kind rest) := by
  rw [firstOf, List.findSome?_cons]
  cases step.yields? kind <;> rfl

theorem kindOf_firstOf {kind : κ} {steps : List (Step κ V ε)} {v : V} (h : firstOf kind steps = some v) :
    Kinded.kindOf v = kind := by
  obtain ⟨step, -, hs⟩ := List.exists_of_findSome?_eq_some h
  cases step with
  | yield w caught =>
    by_cases hk : Kinded.kindOf w = kind
    · rw [Step.yields?, if_pos hk] at hs
      obtain rfl := Option.some.inj hs
      exact hk
    · rw [Step.yields?, if_neg hk] at hs
      cases hs
  | depth | execute | fail => cases hs

namespace Scope

/-- The scope after values were offered to it, of which `v?` is the first it could hold. -/
def offer (scope : Scope κ V) (v? : Option V) : Scope κ V := { scope with held := scope.held.or v? }

omit [DecidableEq κ] [Kinded V κ]

theorem offer_none (scope : Scope κ V) : scope.offer none = scope := by rw [offer, Option.or_none]

theorem offer_offer (scope : Scope κ V) (v? w? : Option V) : (scope.offer v?).offer w? = scope.offer (v?.or w?) := by
  simp only [offer, Option.or_assoc]

end Scope

omit [DecidableEq κ] [Kinded V κ] in
theorem Run.exchange_caughtIf (caught : Bool) (r : Run κ V ε) : (r.caughtIf caught).exchange = r.exchange := by
  unfold caughtIf
  split <;> rfl

/-- What a run of steps does to the scopes: those around the innermost one stay as they are, and a run that
succeeds has offered the innermost one what its steps yield. -/
structure Fills (steps : List (Step κ V ε)) (scope : Scope κ V) (around : List (Scope κ V)) (r : Run κ V ε) :
    Prop where
  frame : ∃ v?, r.exchange = ⟨scope.offer v? :: around⟩
  offered : r.outcome = .ok () → r.exchange = ⟨scope.offer (firstOf scope.expected steps) :: around⟩

theorem exchange_finish (kind : κ) (v? : Option V) (x : Exchange κ V) {body : Run κ V ε}
    (h : body.exchange = ⟨Scope.offer { expected := kind } v? :: x.scopes⟩) : (finish kind body).exchange = x := by
  unfold finish
  rw [h]
  dsimp only [leave]
  split <;> rfl

/-- A value that is yielded is offered to the innermost scope, be it taken or refused. -/
theorem exchange_yield (v : V) (caught : Bool) (scope : Scope κ V) (around : List (Scope κ V)) :
    ((Step.yield v caught : Step κ V ε).run ⟨scope :: around⟩).exchange =
      ⟨scope.offer ((Step.yield v caught : Step κ V ε).yields? scope.expected) :: around⟩ := by
  by_cases hr : Refuses ⟨scope :: around⟩ v
  · obtain ⟨fault, hy, -⟩ := yield_refused hr
    have hsame : scope.offer ((Step.yield v caught : Step κ V ε).yields? scope.expected) = scope := by
      rcases hr with h | ⟨_, _, h, hbad⟩
      · cases h
      · obtain ⟨rfl, rfl⟩ := List.cons.inj h
        rcases hbad with hk | hheld
        · rw [Step.yields?, if_neg (Ne.symm hk), Scope.offer_none]
        · obtain ⟨w, hw⟩ := Option.isSome_iff_exists.1 hheld
          rw [Scope.offer, hw, Option.some_or, ← hw]
    rw [hsame, Step.run, hy, Run.exchange_caughtIf]
  · obtain ⟨around', hs, hy⟩ := yield_taken hr
    obtain ⟨rfl, rfl⟩ := List.cons.inj hs
    rw [Step.run, hy, Run.exchange_caughtIf, Step.yields?, if_pos rfl]
    rfl

mutual
/-- A step offers the innermost scope what it yields itself, and changes nothing else. -/
theorem exchange_step : ∀ (step : Step κ V ε) (scope : Scope κ V) (around : List (Scope κ V)),
    (step.run ⟨scope :: around⟩).exchange = ⟨scope.offer (step.yields? scope.expected) :: around⟩
  | .depth, scope, around => by
    rw [Step.yields?, Scope.offer_none]
    rfl
  | .execute kind body caught, scope, around => by
    obtain ⟨v?, hbody⟩ := (runAll_fills body { expected := kind } (scope :: around)).frame
    rw [Step.yields?, Scope.offer_none, Step.run, Run.exchange_caughtIf]
    exact exchange_finish kind v? ⟨scope :: around⟩ hbody
  | .yield v caught, scope, around => exchange_yield v caught scope around
  | .fail e caught, scope, around => by
    rw [Step.yields?, Scope.offer_none, Step.run, Run.exchange_caughtIf]

theorem runAll_fills : ∀ (steps : List (Step κ V ε)) (scope : Scope κ V) (around : List (Scope κ V)),
    Fills steps scope around (runAll ⟨scope :: around⟩ steps)
  | [], scope, around => by
    have hsame : (⟨scope :: around⟩ : Exchange κ V) = ⟨scope.offer none :: around⟩ := by rw [Scope.offer_none]
    exact ⟨⟨none, hsame⟩, fun _ => hsame⟩
  | step :: rest, scope, around => by
    have hstep := exchange_step step scope around
    have hrest := runAll_fills rest (scope.offer (step.yields? scope.expected)) around
    rw [runAll]
    split
    · next f hf =>
      refine ⟨⟨_, hstep⟩, fun hok => ?_⟩
      rw [hf] at hok
      cases hok
    · rw [hstep]
      obtain ⟨v?, hframe⟩ := hrest.frame
      refine ⟨⟨_, hframe.trans (by rw [Scope.offer_offer])⟩, fun hok => ?_⟩
      rw [firstOf_cons, ← Scope.offer_offer]
      exact hrest.offered hok
end

/-! ### What a scope gives -/

/-- The answer of a scope at the end of a body that succeeded. -/
def answer (kind : κ) : Option V → Except (Failure κ ε) V
  | some v => .ok v
  | none => .error (.fault (.missing kind))

/-- What a scope gives: the failure of its body; else the first value of its kind that the body itself yielded; else
the fault that there is none. -/
def given (kind : κ) (body : List (Step κ V ε)) (r : Run κ V ε) : Except (Failure κ ε) V :=
  match r.outcome with
  | .error f => .error f
  | .ok () => answer kind (firstOf kind body)

/-- The run of a step that gives a value or fails, with the log so far. -/
def Run.noted (x : Exchange κ V) (log : List (Entry κ V ε)) : Except (Failure κ ε) V → Run κ V ε
  | .ok v => ⟨.ok (), x, log ++ [.value v]⟩
  | .error f => ⟨.error f, x, log⟩

theorem finish_failed {kind : κ} {body : Run κ V ε} {f : Failure κ ε} (h : body.outcome = .error f) :
    finish kind body = ⟨.error f, (finish kind body).exchange, body.log⟩ := by
  unfold finish
  rw [h]

theorem finish_filled {kind : κ} {body : Run κ V ε} {v? : Option V} {around : List (Scope κ V)}
    (hk : ∀ v, v? = some v → Kinded.kindOf v = kind) (hok : body.outcome = .ok ())
    (hx : body.exchange = ⟨{ expected := kind, held := v? } :: around⟩) :
    finish kind body = Run.noted ⟨around⟩ body.log (answer kind v?) := by
  unfold finish
  rw [hx]
  cases v? with
  | none => simp [leave, hok, answer, Run.noted]
  | some v => simp only [leave_held _ (hk v rfl), hok, answer, Run.noted]

theorem finish_eq (x : Exchange κ V) (kind : κ) (body : List (Step κ V ε)) :
    finish kind (runAll (x.enter kind) body) =
      Run.noted x (runAll (x.enter kind) body).log (given kind body (runAll (x.enter kind) body)) := by
  have hfills : Fills body { expected := kind } x.scopes (runAll (x.enter kind) body) :=
    runAll_fills body { expected := kind } x.scopes
  obtain ⟨v?, hframe⟩ := hfills.frame
  have hleft : (finish kind (runAll (x.enter kind) body)).exchange = x := exchange_finish kind v? x hframe
  cases ho : (runAll (x.enter kind) body).outcome with
  | error f => rw [finish_failed ho, hleft, given, ho, Run.noted]
  | ok =>
    have hoffered : (runAll (x.enter kind) body).exchange =
        ⟨{ expected := kind, held := firstOf kind body } :: x.scopes⟩ := hfills.offered ho
    rw [finish_filled (fun v hv => kindOf_firstOf hv) ho hoffered, given, ho]

/-- A scope leaves the exchange as it was, also if its body fails, and gives what `given` says. -/
theorem run_execute (x : Exchange κ V) (kind : κ) (body : List (Step κ V ε)) (caught : Bool) :
    (Step.execute kind body caught).run x =
      Run.caughtIf caught (Run.noted x (runAll (x.enter kind) body).log
        (given kind body (runAll (x.enter kind) body))) := by
  rw [Step.run, finish_eq]

/-! ### The faults that a program sees -/

namespace Run

omit [DecidableEq κ] [Kinded V κ]

/-- The run ends with the failure, or caught it on the way. -/
def Reports (r : Run κ V ε) (f : Failure κ ε) : Prop := r.outcome = .error f ∨ .caught f ∈ r.log

/-- No fault that the run reports is one in the order of the stack. -/
def Orderly (r : Run κ V ε) : Prop := ∀ fault, r.Reports (.fault fault) → ¬ fault.IsInternal

theorem Orderly.caughtIf {r : Run κ V ε} (h : r.Orderly) (caught : Bool) : (r.caughtIf caught).Orderly := by
  intro fault hf
  refine h fault ?_
  unfold Run.caughtIf at hf
  split at hf
  · next f ho =>
    rcases hf with hf | hf
    · cases hf
    · rcases List.mem_append.1 hf with hlog | hlast
      · exact .inr hlog
      · cases List.mem_singleton.1 hlast
        exact .inl ho
  · exact hf

theorem Orderly.noted {x : Exchange κ V} {log : List (Entry κ V ε)} {a : Except (Failure κ ε) V}
    (hlog : ∀ fault, .caught (.fault fault) ∈ log → ¬ fault.IsInternal)
    (ha : ∀ fault, a = .error (.fault fault) → ¬ fault.IsInternal) : (Run.noted x log a).Orderly := by
  intro fault hf
  cases a with
  | error f =>
    rcases hf with hf | hf
    · exact ha fault (congrArg Except.error (Except.error.inj hf))
    · exact hlog fault hf
  | ok v =>
    rcases hf with hf | hf
    · cases hf
    · rcases List.mem_append.1 hf with hf | hf
      · exact hlog fault hf
      · cases List.mem_singleton.1 hf

end Run

/-- The faults of a scope are those of its body, or that it holds no value. -/
theorem given_orderly (kind : κ) (body : List (Step κ V ε)) {r : Run κ V ε} (h : r.Orderly) :
    ∀ fault, given kind body r = .error (.fault fault) → ¬ fault.IsInternal := by
  intro fault hg
  unfold given at hg
  cases ho : r.outcome with
  | error f =>
    rw [ho] at hg
    exact h fault (.inl (ho.trans (congrArg Except.error (Except.error.inj hg))))
  | ok =>
    rw [ho] at hg
    cases hv : firstOf kind body with
    | some v =>
      rw [hv] at hg
      cases hg
    | none =>
      rw [hv] at hg
      cases hg
      exact id

mutual
theorem step_orderly : ∀ (step : Step κ V ε) (x : Exchange κ V), (step.run x).Orderly
  | .depth, x => by
    intro fault hf
    rcases hf with hf | hf
    · cases hf
    · cases List.mem_singleton.1 hf
  | .execute kind body caught, x => by
    have hbody := runAll_orderly body (x.enter kind)
    rw [run_execute]
    exact (Run.Orderly.noted (fun fault hf => hbody fault (.inr hf)) (given_orderly kind body hbody)).caughtIf caught
  | .yield v caught, x => by
    rw [Step.run]
    refine Run.Orderly.caughtIf ?_ caught
    rintro fault (hf | hf)
    · by_cases hr : Refuses x v
      · obtain ⟨seen, hy, hseen⟩ := yield_refused hr
        rw [hy] at hf
        cases hf
        exact hseen
      · obtain ⟨around, -, hy⟩ := yield_taken hr
        rw [hy] at hf
        cases hf
    · split at hf <;> cases hf
  | .fail e caught, x => by
    rw [Step.run]
    refine Run.Orderly.caughtIf ?_ caught
    rintro fault (hf | hf) <;> cases hf

theorem runAll_orderly : ∀ (steps : List (Step κ V ε)) (x : Exchange κ V), (runAll x steps).Orderly
  | [], x => by
    rintro fault (hf | hf) <;> cases hf
  | step :: rest, x => by
    have hstep := step_orderly step x
    rw [runAll]
    split
    · exact hstep
    · have hrest := runAll_orderly rest (step.run x).exchange
      rintro fault (hf | hf)
      · exact hrest fault (.inl hf)
      · rcases List.mem_append.1 hf with hf | hf
        · exact hstep fault (.inr hf)
        · exact hrest fault (.inr hf)
end

/-! ### Isolation -/

omit [DecidableEq κ] [Kinded V κ] in
theorem exchange_noted (x : Exchange κ V) (log : List (Entry κ V ε)) (a : Except (Failure κ ε) V) :
    (Run.noted x log a).exchange = x := by
  cases a <;> rfl

/-- Whatever scopes are open, and whatever steps were run and whichever of their failures were caught to get there:
a scope leaves the exchange as it found it and gives the failure of its body, else the first value of its kind that
the body itself yielded, else the fault that there is none; a value is refused exactly if no scope is open, the
innermost one expects another kind or it is full, and then nothing changes, and else the innermost scope holds it;
and no fault in the order of the stack is ever reported. -/
theorem scopes_isolated (x : Exchange κ V) :
    (∀ (kind : κ) (body : List (Step κ V ε)) (caught : Bool),
      ((Step.execute kind body caught).run x).exchange = x ∧
      (Step.execute kind body caught).run x =
        Run.caughtIf caught (Run.noted x (runAll (x.enter kind) body).log
          (given kind body (runAll (x.enter kind) body)))) ∧
    (∀ v : V,
      (Refuses x v ↔ ∃ fault, ∀ caught,
        (Step.yield v caught : Step κ V ε).run x = Run.caughtIf caught ⟨.error (.fault fault), x, []⟩) ∧
      (Refuses x v ∨ ∃ around, x.scopes = { expected := Kinded.kindOf v } :: around ∧ ∀ caught,
        (Step.yield v caught : Step κ V ε).run x =
          ⟨.ok (), ⟨{ expected := Kinded.kindOf v, held := some v } :: around⟩, []⟩)) ∧
    ∀ steps : List (Step κ V ε), (runAll x steps).Orderly := by
  have htaken : ∀ v : V, ¬ Refuses x v → ∃ around, x.scopes = { expected := Kinded.kindOf v } :: around ∧
      ∀ caught, (Step.yield v caught : Step κ V ε).run x =
        ⟨.ok (), ⟨{ expected := Kinded.kindOf v, held := some v } :: around⟩, []⟩ := by
    intro v hr
    obtain ⟨around, hs, hy⟩ := yield_taken hr
    refine ⟨around, hs, fun caught => ?_⟩
    rw [Step.run, hy]
    rfl
  refine ⟨fun kind body caught => ⟨?_, run_execute x kind body caught⟩, fun v => ⟨⟨fun hr => ?_, ?_⟩, ?_⟩,
    fun steps => runAll_orderly steps x⟩
  · rw [run_execute, Run.exchange_caughtIf, exchange_noted]
  · obtain ⟨fault, hy, -⟩ := yield_refused hr
    refine ⟨fault, fun caught => ?_⟩
    rw [Step.run, hy]
  · rintro ⟨fault, hrun⟩
    by_contra hr
    obtain ⟨around, -, htook⟩ := htaken v hr
    have hno := (htook false).symm.trans (hrun false)
    cases hno
  · by_cases hr : Refuses x v
    · exact .inl hr
    · exact .inr (htaken v hr)

/-- A name is asked for. The filter asked for in its body refuses a name and is given up without a filter, and the
failure is caught; then the body yields its name, and a second one that is refused. -/
def nestedProgram : List (Step FragmentKind Fragment String) :=
  [.execute .filter [.yield (.collection "people") true] true, .yield (.collection "places") false,
    .yield (.collection "things") true]

theorem scopes_isolated_nested :
    (Step.execute .collection nestedProgram false).run {} = Run.noted {}
      [.caught (.fault (.wrongKind .filter .collection)), .caught (.fault (.missing .filter)),
        .caught (.fault (.occupied .collection))] (.ok (.collection "places")) ∧
    Refuses ({} : Exchange FragmentKind Fragment) (.collection "places") := by
  obtain ⟨hexec, hyield, -⟩ := scopes_isolated (ε := String) ({} : Exchange FragmentKind Fragment)
  exact ⟨(hexec .collection nestedProgram false).2, (hyield (.collection "places")).1.2 ⟨_, fun _ => rfl⟩⟩

end Exchange
end RelDoc
