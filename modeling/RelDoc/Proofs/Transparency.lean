import RelDoc.Plan.Direct
import RelDoc.Proofs.Outcome

/-!
# Visits answer what plain recursion answers

A visit hands its fragment to the scope around it. Under a table in scope and fields to fill,
`Gives v x` says that the action `v` ends with the outcome `x` and leaves the pass as it was, and
`Yields v x` that the visit `v` does what handing over the outcome `x` does, whatever scopes are open
around it. A visit that yields, run in a scope of its own, gives what it yields (`Yields.produce`).
By recursion on the nodes a visit to a node yields what plain recursion answers for it, and a
statement is planned to the command of plain recursion (`commandOf_eq`).
-/

namespace RelDoc

namespace Exchange

universe u

variable {κ V : Type u} [DecidableEq κ] [Kinded V κ] {kind : κ} {v : V}

/-- A scope just opened takes a value of its kind. -/
theorem yield_enter (x : Exchange κ V) (hv : Kinded.kindOf v = kind) :
    (x.enter kind).yield v = .ok ⟨{ expected := kind, held := some v } :: x.scopes⟩ := by
  simp [enter, yield, hv]

/-- The value of a scope comes out when the scope is closed. -/
theorem leave_held (scopes : List (Scope κ V)) (hv : Kinded.kindOf v = kind) :
    leave kind ⟨{ expected := kind, held := some v } :: scopes⟩ = (.ok v, ⟨scopes⟩) := by
  simp [leave, hv]

end Exchange

namespace Visit

variable {α β : Type} {scope : Option Table} {fields : List FieldPath}

/-- Hands over the fragment of an outcome. -/
def yieldOutcome [IsFragment α] (x : Except Error α) : Visit Unit := do
  let a ← x
  yieldFragment a

/-- In a pass with this table in scope and these fields to fill, `v` ends with `x` and leaves the
pass as it was. -/
def Gives (scope : Option Table) (fields : List FieldPath) (v : Visit α) (x : Except Error α) : Prop :=
  ∀ pass : Pass, pass.scope = scope → pass.insertFields = fields → v pass = (x, pass)

/-- In a pass with this table in scope and these fields to fill, `v` hands over `x`. -/
def Yields [IsFragment α] (scope : Option Table) (fields : List FieldPath) (v : Visit Unit)
    (x : Except Error α) : Prop :=
  ∀ pass : Pass, pass.scope = scope → pass.insertFields = fields → v pass = yieldOutcome x pass

theorem bind_of_ok {v : Visit α} {pass p : Pass} {a : α} (h : v pass = (.ok a, p)) (k : α → Visit β) :
    (v >>= k) pass = k a p := by
  simp only [Bind.bind, ExceptT.bind, ExceptT.mk, StateT.bind, h, ExceptT.bindCont]

theorem bind_of_error {v : Visit α} {pass p : Pass} {e : Error} (h : v pass = (.error e, p)) (k : α → Visit β) :
    (v >>= k) pass = (.error e, p) := by
  simp only [Bind.bind, ExceptT.bind, ExceptT.mk, StateT.bind, h, ExceptT.bindCont]
  rfl

namespace Gives

theorem lift (x : Except Error α) : Gives scope fields (liftM x) x := fun _ _ _ => rfl

theorem pure (a : α) : Gives scope fields (Pure.pure a) (.ok a) := fun _ _ _ => rfl

theorem bind {v : Visit α} {x : Except Error α} {k : α → Visit β} {f : α → Except Error β}
    (hv : Gives scope fields v x) (hk : ∀ a, Gives scope fields (k a) (f a)) :
    Gives scope fields (v >>= k) (x >>= f) := by
  intro pass hs hf
  have h := hv pass hs hf
  cases x with
  | error e => exact bind_of_error h k
  | ok a => rw [bind_of_ok h]; exact hk a pass hs hf

/-- The table in scope is forgotten again. -/
theorem withScope {t : Table} {v : Visit α} {x : Except Error α} (hv : Gives (some t) fields v x) :
    Gives none fields (Visit.withScope t v) x := by
  rintro ⟨exchange, _, insertFields⟩ rfl hf
  have h := hv { exchange, scope := some t, insertFields } rfl hf
  simp only [Visit.withScope, h]

/-- The fields to fill are put back. -/
theorem withInsertFields {fields' : List FieldPath} {v : Visit α} {x : Except Error α}
    (hv : Gives scope fields' v x) : Gives scope fields (Visit.withInsertFields fields' v) x := by
  intro pass hs _
  have h := hv { pass with insertFields := fields' } hs rfl
  simp only [Visit.withInsertFields, h]

end Gives

namespace Yields

variable [IsFragment β]

theorem yield (b : β) : Yields scope fields (yieldFragment b) (.ok b) := fun _ _ _ => rfl

theorem throw (e : Error) : Yields scope fields (MonadExcept.throw e) (.error e : Except Error β) :=
  fun _ _ _ => rfl

theorem bind {v : Visit α} {x : Except Error α} {k : α → Visit Unit} {f : α → Except Error β}
    (hv : Gives scope fields v x) (hk : ∀ a, Yields scope fields (k a) (f a)) :
    Yields scope fields (v >>= k) (x >>= f) := by
  intro pass hs hf
  have h := hv pass hs hf
  cases x with
  | error e => exact bind_of_error h k
  | ok a => rw [bind_of_ok h]; exact hk a pass hs hf

theorem lift {x : Except Error β} {v : Visit β} (hv : Gives scope fields v x) :
    Yields scope fields (v >>= fun b => yieldFragment b) x := by
  intro pass hs hf
  have h := hv pass hs hf
  cases x with
  | error e => exact bind_of_error h yieldFragment
  | ok b => exact bind_of_ok h yieldFragment

/-- A visit may look at the pass it runs in. -/
theorem get {k : Pass → Visit Unit} {x : Except Error β}
    (hk : ∀ pass : Pass, pass.scope = scope → pass.insertFields = fields → Yields scope fields (k pass) x) :
    Yields scope fields (MonadState.get >>= k) x := fun pass hs hf => hk pass hs hf pass hs hf

/-- The scope opened for a visit takes the fragment that the visit yields. -/
theorem produce {v : Visit Unit} {x : Except Error β} (hv : Yields scope fields v x) :
    Gives scope fields (Visit.produce v) x := by
  intro pass hs hf
  have h := hv { pass with exchange := pass.exchange.enter (IsFragment.kind β) } hs hf
  simp only [Visit.produce, h]
  cases x with
  | error e => rfl
  | ok b =>
    have hy : (yieldOutcome (.ok b) : Visit Unit) = yieldFragment b := rfl
    have hk : Kinded.kindOf (IsFragment.wrap b) = IsFragment.kind β := IsFragment.kind_wrap b
    simp only [hy, yieldFragment, Exchange.yield_enter _ hk, Exchange.leave_held _ hk, IsFragment.unwrap_wrap]

end Yields
end Visit

open Visit

namespace Dialect

variable (d : Dialect) {scope : Option Table} {fields : List FieldPath}

/-! ### Tables, columns and expressions -/

theorem gives_collectionOf (t : Table) :
    Gives scope fields (d.collectionOf t) (d.catalog.collectionOf t.name) :=
  Yields.produce (Yields.lift (Gives.lift _))

theorem yields_visitColumn (c : Column) :
    Yields scope fields (d.visitColumn c) (d.columnOperand scope c) := by
  refine Yields.get fun pass hs _ => ?_
  rw [hs]
  exact Yields.lift (Gives.lift _)

theorem yields_visitExpression (e : Expression) :
    Yields scope fields (d.visitExpression e) (d.operand scope e) := by
  refine Yields.get fun pass hs _ => ?_
  rw [hs]
  exact Yields.lift (Gives.lift _)

theorem gives_operandOf (e : Expression) : Gives scope fields (d.operandOf e) (d.operand scope e) :=
  Yields.produce (d.yields_visitExpression e)

theorem gives_fieldOf (c : Column) : Gives scope fields (d.fieldOf c) (Direct.fieldOf d scope c) :=
  Gives.bind (Yields.produce (d.yields_visitColumn c)) fun _ => Gives.lift _

theorem gives_valueOf (place : ValuePlace) (e : Expression) :
    Gives scope fields (d.valueOf place e) (Direct.valueOf d scope place e) :=
  Gives.bind (d.gives_operandOf e) fun _ => Gives.lift _

theorem gives_columnFieldOf (place : ColumnPlace) (e : Expression) :
    Gives scope fields (d.columnFieldOf place e) (Direct.columnFieldOf d scope place e) :=
  Gives.bind (d.gives_operandOf e) fun _ => Gives.lift _

/-! ### Predicates -/

theorem yields_visitComparison (c : Comparison) (left right : Expression) :
    Yields scope fields (d.visitComparison c left right) (Direct.comparison d scope c left right) :=
  Yields.bind (Gives.lift _) fun _ =>
    Yields.bind (d.gives_operandOf left) fun _ =>
      Yields.bind (d.gives_operandOf right) fun _ => Yields.lift (Gives.lift _)

mutual
theorem yields_visitPredicate : ∀ p : Predicate,
    Yields scope fields (d.visitPredicate p) (Direct.filter d scope p)
  | .comparison c left right => d.yields_visitComparison c left right
  | .junction kind parts => by
    rw [visitPredicate, Direct.filter]
    exact Yields.bind (gives_filtersOf parts) fun _ => Yields.lift (Gives.lift _)
  | .negated p => by
    rw [visitPredicate, Direct.filter]
    exact Yields.bind (Yields.produce (yields_visitPredicate p)) fun _ => Yields.lift (Gives.lift _)
  | .grouped p => by
    rw [visitPredicate, Direct.filter]
    exact yields_visitPredicate p
  | .nullness _ _ => Yields.throw _
  | .membership _ _ _ => Yields.throw _
  | .pattern _ _ _ => Yields.throw _
  | .between _ _ _ _ => Yields.throw _

theorem gives_filtersOf : ∀ ps : List Predicate,
    Gives scope fields (d.filtersOf ps) (Direct.filters d scope ps)
  | [] => Gives.pure _
  | p :: rest => by
    rw [filtersOf, Direct.filters]
    exact Gives.bind (Yields.produce (yields_visitPredicate p)) fun _ =>
      Gives.bind (gives_filtersOf rest) fun _ => Gives.pure _
end

theorem gives_filterOf (p : Predicate) : Gives scope fields (d.filterOf p) (Direct.filter d scope p) :=
  Yields.produce (d.yields_visitPredicate p)

theorem gives_restrictionOf (r : Option Predicate) :
    Gives scope fields (d.restrictionOf r) (Direct.restriction d scope r) := by
  cases r with
  | none => exact Gives.pure _
  | some p => exact d.gives_filterOf p

/-! ### Clauses -/

theorem yields_visitAssignment (a : Assignment) :
    Yields scope fields (d.visitAssignment a) (Direct.update d scope a) := by
  refine Yields.bind (d.gives_fieldOf a.column) fun field => Yields.get fun pass hs _ => ?_
  rw [hs]
  refine Yields.bind (Gives.lift _) fun identifier => ?_
  by_cases h : (identifier || field.isId) = true
  · rw [if_pos h, if_pos h]
    exact Yields.throw _
  · rw [if_neg h, if_neg h]
    exact Yields.bind (d.gives_valueOf .assignment a.value) fun _ => Yields.yield _

theorem gives_updatesOf (as : List Assignment) :
    Gives scope fields (d.updatesOf as) (as.mapM (Direct.update d scope)) := by
  induction as with
  | nil => exact Gives.pure _
  | cons a rest ih =>
    rw [List.mapM_cons]
    exact Gives.bind (Yields.produce (d.yields_visitAssignment a)) fun _ => Gives.bind ih fun _ => Gives.pure _

theorem gives_rowOf (columns : List FieldPath) (es : List Expression) :
    Gives scope fields (d.rowOf columns es) (Direct.row d scope columns es) := by
  induction columns generalizing es with
  | nil => exact Gives.pure _
  | cons field rest ih =>
    cases es with
    | nil => exact Gives.pure _
    | cons e es =>
      exact Gives.bind (d.gives_valueOf .insert e) fun _ => Gives.bind (ih es) fun _ => Gives.pure _

theorem yields_visitRow (es : List Expression) :
    Yields scope fields (d.visitRow es) (Direct.document d scope fields es) := by
  refine Yields.get fun pass _ hf => ?_
  rw [hf, Direct.document]
  by_cases h : es.length ≠ fields.length
  · rw [if_pos h, if_pos h]
    exact Yields.throw _
  · rw [if_neg h, if_neg h]
    exact Yields.bind (d.gives_rowOf fields es) fun _ => Yields.lift (Gives.lift _)

theorem gives_rowsOf (rows : List (List Expression)) :
    Gives scope fields (d.rowsOf rows) (rows.mapM (Direct.document d scope fields)) := by
  induction rows with
  | nil => exact Gives.pure _
  | cons row rest ih =>
    rw [List.mapM_cons]
    exact Gives.bind (Yields.produce (d.yields_visitRow row)) fun _ => Gives.bind ih fun _ => Gives.pure _

theorem gives_fieldsOf (cs : List Column) :
    Gives scope fields (d.fieldsOf cs) (cs.mapM (Direct.fieldOf d scope)) := by
  induction cs with
  | nil => exact Gives.pure _
  | cons c rest ih =>
    rw [List.mapM_cons]
    exact Gives.bind (d.gives_fieldOf c) fun _ => Gives.bind ih fun _ => Gives.pure _

theorem yields_visitSelection (s : Selection) :
    Yields scope fields (d.visitSelection s) (Direct.projection d scope s) :=
  Yields.bind (d.gives_columnFieldOf .selection s.expression) fun _ => Yields.yield _

theorem yields_visitSortItem (s : SortItem) :
    Yields scope fields (d.visitSortItem s) (Direct.sortKey d scope s) :=
  Yields.bind (d.gives_columnFieldOf .orderBy s.expression) fun _ => Yields.yield _

theorem gives_projectionsOf (found : List Projection) (ss : List Selection) :
    Gives scope fields (d.projectionsOf found ss) (Direct.projections d scope found ss) := by
  induction ss generalizing found with
  | nil => exact Gives.pure _
  | cons s rest ih => exact Gives.bind (Yields.produce (d.yields_visitSelection s)) fun _ => ih _

theorem gives_sortKeysOf (projected : List Projection) (found : List SortKey) (ss : List SortItem) :
    Gives scope fields (d.sortKeysOf projected found ss) (Direct.sortKeys d scope projected found ss) := by
  induction ss generalizing found with
  | nil => exact Gives.pure _
  | cons s rest ih =>
    exact Gives.bind (Yields.produce (d.yields_visitSortItem s)) fun _ => Gives.bind (Gives.lift _) fun _ => ih _

theorem gives_filterStage (r : Option Predicate) :
    Gives scope fields (d.filterStage r) (Direct.filterStage d scope r) := by
  cases r with
  | none => exact Gives.pure _
  | some p => exact Gives.bind (d.gives_filterOf p) fun _ => Gives.pure _

theorem gives_countStage (kind : CountStage) (e : Option Expression) :
    Gives scope fields (d.countStage kind e) (Direct.countStage d scope kind e) := by
  cases e with
  | none => exact Gives.pure _
  | some e =>
    exact Gives.bind (d.gives_valueOf kind.place e) fun _ => Gives.bind (Gives.lift _) fun _ => Gives.pure _

/-! ### Statements

Statements are visited with no table in scope. -/

theorem yields_visitInsert (s : Insert) : Yields none fields (d.visitInsert s) (Direct.insert d s) := by
  rw [visitInsert, Direct.insert]
  cases s.source with
  | select _ => exact Yields.throw _
  | rows rows =>
    exact Yields.lift (Gives.withScope (Gives.bind (d.gives_collectionOf s.table) fun _ =>
      Gives.bind (d.gives_fieldsOf s.columns) fun _ =>
        Gives.bind (Gives.withInsertFields (d.gives_rowsOf rows)) fun _ => Gives.lift _))

theorem yields_visitUpdate (s : Update) :
    Yields none fields (d.visitUpdate s) (Direct.updateCommand d s) :=
  Yields.lift (Gives.withScope (Gives.bind (d.gives_collectionOf s.table) fun _ =>
    Gives.bind (d.gives_restrictionOf s.restriction) fun _ =>
      Gives.bind (d.gives_updatesOf s.assignments) fun _ =>
        Gives.bind (Gives.lift _) fun _ => Gives.lift _))

theorem yields_visitDelete (s : Delete) : Yields none fields (d.visitDelete s) (Direct.delete d s) :=
  Yields.lift (Gives.withScope (Gives.bind (d.gives_collectionOf s.table) fun _ =>
    Gives.bind (d.gives_restrictionOf s.restriction) fun _ => Gives.pure _))

theorem yields_visitSelect (s : Select) : Yields none fields (d.visitSelect s) (Direct.select d s) := by
  rw [visitSelect, Direct.select]
  cases s.joins with
  | cons j rest => exact Yields.throw _
  | nil =>
    rw [Join.visitAll, pure_bind]
    refine Yields.bind (Gives.lift s.checkClauses) fun _ => Yields.lift (Gives.withScope ?_)
    refine Gives.bind (d.gives_collectionOf s.table) fun _ => ?_
    refine Gives.bind (d.gives_filterStage s.restriction) fun _ => ?_
    refine Gives.bind (d.gives_projectionsOf [] s.selections) fun _ => ?_
    refine Gives.bind (d.gives_sortKeysOf _ [] s.orderBy) fun _ => ?_
    refine Gives.bind (Gives.lift _) fun _ => Gives.bind (Gives.lift _) fun _ => ?_
    refine Gives.bind (d.gives_countStage .skip s.offset) fun _ => ?_
    exact Gives.bind (d.gives_countStage .limit s.fetch) fun _ => Gives.pure _

theorem gives_plan (s : Statement) : Gives none fields (d.plan s) (Direct.command d s) := by
  refine Yields.produce ?_
  cases s with
  | insert s => exact d.yields_visitInsert s
  | update s => exact d.yields_visitUpdate s
  | delete s => exact d.yields_visitDelete s
  | select s => exact d.yields_visitSelect s

/-- A pass of its own plans a statement to the command of plain recursion. -/
theorem commandOf_eq (s : Statement) : d.commandOf s = Direct.command d s :=
  congrArg Prod.fst (d.gives_plan s {} rfl rfl)

/-- A pass of its own, and any pass with no table in scope, whatever scopes are open on its exchange and
whatever fields it remembers, answers what plain recursion answers. The pass is as it was. -/
theorem plan_transparent (s : Statement) : d.commandOf s = Direct.command d s ∧
    ∀ exchange insertFields, (d.plan s).run.run { exchange, insertFields } =
      (Direct.command d s, { exchange, insertFields }) :=
  ⟨d.commandOf_eq s, fun _ _ => d.gives_plan s _ rfl rfl⟩

end Dialect
end RelDoc
