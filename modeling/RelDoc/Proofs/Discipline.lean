import RelDoc.Proofs.Transparency

/-!
# What a visit does to its pass

A visit hands one fragment over, of the kind that belongs to its node, or it fails and leaves the pass
as it was. Either way the table in scope, the fields to fill and all scopes but the innermost stay what
they were (`Visit.Obeys`). Visits do what handing over an outcome does (`Visit.HandsOver`): that is
what `Visit.Yields` says of them, whatever pass they find. Only statements look at whether a table is
already in scope, and refuse to be visited then before they have changed anything.

So one pass plans any statements one after another, failing ones among them, as passes of their own
would (`Dialect.visit_keeps_pass`).
-/

namespace RelDoc

namespace Exchange

variable {κ V : Type} [DecidableEq κ] [Kinded V κ]

/-- The exchange takes a value exactly if the innermost scope is empty and expects its kind. -/
theorem yield_eq_ok {x y : Exchange κ V} {v : V} : x.yield v = .ok y ↔
    ∃ rest, x.scopes = { expected := Kinded.kindOf v } :: rest ∧
      y.scopes = { expected := Kinded.kindOf v, held := some v } :: rest := by
  obtain ⟨scopes⟩ := x
  obtain ⟨after⟩ := y
  rcases scopes with _ | ⟨⟨expected, held⟩, rest⟩
  · simp [yield]
  · by_cases hk : expected = Kinded.kindOf v
    · subst hk
      cases held with
      | none =>
        simp only [yield, ne_eq, not_true_eq_false, if_false, Option.isSome_none, Bool.false_eq_true,
          Except.ok.injEq, mk.injEq, List.cons.injEq, true_and, exists_eq_left']
        exact eq_comm
      | some w => simp [yield]
    · simp [yield, hk]

end Exchange

inductive Node where
  | statement (s : Statement)
  | table (t : Table)
  | join (j : Join)
  | column (c : Column)
  | expression (e : Expression)
  | predicate (p : Predicate)
  | assignment (a : Assignment)
  | row (values : List Expression)
  | selection (s : Selection)
  | sortItem (s : SortItem)

namespace Node

/-- The kind of fragment that a node turns into; a join turns into none. -/
def kind? : Node → Option FragmentKind
  | statement _ => some .command
  | table _ => some .collection
  | join _ => none
  | column _ => some .operand
  | expression _ => some .operand
  | predicate _ => some .filter
  | assignment _ => some .update
  | row _ => some .document
  | selection _ => some .projection
  | sortItem _ => some .sortKey

end Node

namespace Visit

/-- What a visit to a node of a kind may do to the pass it finds. -/
structure Obeys (kind? : Option FragmentKind) (before : Pass) (answer : Except Error Unit × Pass) : Prop where
  scope : answer.2.scope = before.scope
  insertFields : answer.2.insertFields = before.insertFields
  /-- The scopes around the innermost one. -/
  around : answer.2.exchange.scopes.tail = before.exchange.scopes.tail
  /-- Success fills an innermost scope that was empty and expected the kind of the node. -/
  held : answer.1 = .ok () → ∃ kind fragment rest, kind? = some kind ∧ fragment.kind = kind ∧
    before.exchange.scopes = { expected := kind } :: rest ∧
    answer.2.exchange.scopes = { expected := kind, held := some fragment } :: rest
  unchanged : ∀ e, answer.1 = .error e → answer.2 = before

theorem Obeys.refused (kind? : Option FragmentKind) (pass : Pass) (e : Error) :
    Obeys kind? pass (.error e, pass) where
  scope := rfl
  insertFields := rfl
  around := rfl
  held h := by simp at h
  unchanged _ _ := rfl

/-- In every pass, the visit does what handing over some outcome does. -/
def HandsOver (α : Type) [IsFragment α] (v : Visit Unit) : Prop :=
  ∀ pass : Pass, ∃ x : Except Error α, v pass = yieldOutcome x pass

variable {α : Type} [IsFragment α] {v : Visit Unit}

theorem Yields.handsOver (h : ∀ scope fields, ∃ x : Except Error α, Yields scope fields v x) : HandsOver α v := by
  intro pass
  obtain ⟨x, hx⟩ := h pass.scope pass.insertFields
  exact ⟨x, hx pass rfl rfl⟩

theorem obeys_yieldFragment (a : α) (pass : Pass) :
    Obeys (some (IsFragment.kind α)) pass (yieldFragment a pass) := by
  have hk : Kinded.kindOf (IsFragment.wrap a) = IsFragment.kind α := IsFragment.kind_wrap a
  unfold yieldFragment
  cases hy : pass.exchange.yield (IsFragment.wrap a) with
  | error fault => exact .refused _ pass _
  | ok x =>
    obtain ⟨rest, hbefore, hafter⟩ := Exchange.yield_eq_ok.1 hy
    rw [hk] at hbefore hafter
    refine ⟨rfl, rfl, ?_, fun _ => ?_, fun e h => by simp at h⟩
    · show x.scopes.tail = _
      rw [hbefore, hafter]
      rfl
    · exact ⟨_, IsFragment.wrap a, rest, rfl, IsFragment.kind_wrap a, hbefore, hafter⟩

theorem HandsOver.obeys (h : HandsOver α v) (pass : Pass) :
    Obeys (some (IsFragment.kind α)) pass (v pass) := by
  obtain ⟨x, hx⟩ := h pass
  rw [hx]
  cases x with
  | error e => exact .refused _ pass e
  | ok a => exact obeys_yieldFragment a pass

/-- With a table in scope no other is put there. -/
theorem Gives.nested {α : Type} {outer t : Table} {fields : List FieldPath} (v : Visit α) :
    Gives (some outer) fields (Visit.withScope t v)
      (.error (.unsupported (.nestedStatement t.name outer.name))) := by
  rintro ⟨exchange, _, insertFields⟩ rfl -
  rfl

end Visit

open Visit

namespace Dialect

variable (d : Dialect)

def visit : Node → Visit Unit
  | .statement s => d.visitStatement s
  | .table t => d.visitTable t
  | .join j => j.visit
  | .column c => d.visitColumn c
  | .expression e => d.visitExpression e
  | .predicate p => d.visitPredicate p
  | .assignment a => d.visitAssignment a
  | .row values => d.visitRow values
  | .selection s => d.visitSelection s
  | .sortItem s => d.visitSortItem s

/-- A statement inside of another is refused, unless something else in it is refused first. -/
theorem yields_nestedStatement (outer : Table) (fields : List FieldPath) (s : Statement) :
    ∃ x : Except Error Command, Yields (some outer) fields (d.visitStatement s) x := by
  cases s with
  | insert s =>
    rw [visitStatement, visitInsert]
    cases s.source with
    | select _ => exact ⟨_, Yields.throw _⟩
    | rows _ => exact ⟨_, Yields.lift (Gives.nested _)⟩
  | update s => exact ⟨_, Yields.lift (Gives.nested _)⟩
  | delete s => exact ⟨_, Yields.lift (Gives.nested _)⟩
  | select s =>
    rw [visitStatement, visitSelect]
    cases s.joins with
    | cons j _ => exact ⟨_, Yields.throw _⟩
    | nil =>
      rw [Join.visitAll, pure_bind]
      exact ⟨_, Yields.bind (Gives.lift s.checkClauses) fun _ => Yields.lift (Gives.nested _)⟩

theorem handsOver_visitStatement (s : Statement) : HandsOver Command (d.visitStatement s) := by
  refine Yields.handsOver fun scope fields => ?_
  cases scope with
  | some outer =>
    -- the outcome is an error whatever the statement, but which one depends on how far the visit gets
    exact d.yields_nestedStatement outer fields s
  | none =>
    cases s with
    | insert s => exact ⟨_, d.yields_visitInsert s⟩
    | update s => exact ⟨_, d.yields_visitUpdate s⟩
    | delete s => exact ⟨_, d.yields_visitDelete s⟩
    | select s => exact ⟨_, d.yields_visitSelect s⟩

theorem visit_obeys (n : Node) (pass : Pass) : Obeys n.kind? pass (d.visit n pass) := by
  cases n with
  | statement s => exact (d.handsOver_visitStatement s).obeys pass
  | table t =>
    have hlift := fun scope fields => @Gives.lift _ scope fields (d.catalog.collectionOf t.name)
    exact (Yields.handsOver fun _ _ => ⟨_, Yields.lift (hlift _ _)⟩).obeys pass
  | join j => exact .refused _ pass j.refusal
  | column c => exact (Yields.handsOver fun _ _ => ⟨_, d.yields_visitColumn c⟩).obeys pass
  | expression e => exact (Yields.handsOver fun _ _ => ⟨_, d.yields_visitExpression e⟩).obeys pass
  | predicate p => exact (Yields.handsOver fun _ _ => ⟨_, d.yields_visitPredicate p⟩).obeys pass
  | assignment a => exact (Yields.handsOver fun _ _ => ⟨_, d.yields_visitAssignment a⟩).obeys pass
  | row es => exact (Yields.handsOver fun _ _ => ⟨_, d.yields_visitRow es⟩).obeys pass
  | selection s => exact (Yields.handsOver fun _ _ => ⟨_, d.yields_visitSelection s⟩).obeys pass
  | sortItem s => exact (Yields.handsOver fun _ _ => ⟨_, d.yields_visitSortItem s⟩).obeys pass

theorem planAll_eq {pass : Pass} (h : pass.scope = none) (statements : List Statement) :
    d.planAll pass statements = (statements.map d.commandOf, pass) := by
  induction statements with
  | nil => rfl
  | cons s rest ih =>
    have hs : (d.plan s).run.run pass = (d.commandOf s, pass) := by
      rw [d.commandOf_eq]
      exact d.gives_plan s pass h rfl
    simp only [planAll, hs, ih, List.map_cons]

/-- Every visit hands over at most the one fragment of its node and leaves the rest of its pass, or
all of it if it fails, as it was. So one pass answers each of many statements as a pass of its own. -/
theorem visit_keeps_pass :
    (∀ (n : Node) (pass : Pass), Obeys n.kind? pass ((d.visit n).run.run pass)) ∧
      ∀ statements : List Statement, d.planAll {} statements = (statements.map d.commandOf, {}) :=
  ⟨d.visit_obeys, d.planAll_eq rfl⟩

end Dialect
end RelDoc
