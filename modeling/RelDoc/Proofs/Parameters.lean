import Mathlib.Data.Finset.Range
import RelDoc.Proofs.Rendered

/-!
# The parameters of a statement and of its command

`Statement.parameters` collects the parameters of every expression of a statement, wherever it stands. A
planned command has each of them exactly as often as its statement (`Direct.positions_command`): clauses
are put in another order, comparisons turned round and groups dropped, and no parameter is lost on the
way. So the values of the parameters fit exactly if their positions are those of the statement
(`Session.render_ok_iff`).
-/

namespace RelDoc

open Outcome

/-! ### Statements -/

/-- The parameters of an optional clause. -/
def Expression.optionParameters (e : Option Expression) : List Nat := e.toList.flatMap parameters

namespace Predicate

/-- The parameters of a restriction, if there is one. -/
def optionParameters (p : Option Predicate) : List Nat := p.toList.flatMap parameters

end Predicate

namespace Select

/-- The parameters of a SELECT, in order of writing. -/
def parameters (s : Select) : List Nat :=
  s.selections.flatMap (·.expression.parameters) ++
    (s.joins.flatMap (fun j => Predicate.optionParameters j.condition) ++
      (Predicate.optionParameters s.restriction ++
        (s.groupBy.flatMap Expression.parameters ++
          (s.orderBy.flatMap (·.expression.parameters) ++
            (Expression.optionParameters s.offset ++ Expression.optionParameters s.fetch)))))

end Select

namespace Insert

/-- The parameters of an INSERT, in order of writing. -/
def parameters (s : Insert) : List Nat :=
  match s.source with
  | .rows rows => rows.flatMap fun row => row.flatMap Expression.parameters
  | .select q => q.parameters

end Insert

namespace Statement

/-- The parameters of a statement, in order of writing. -/
def parameters : Statement → List Nat
  | insert s => s.parameters
  | update s => s.assignments.flatMap (·.value.parameters) ++ Predicate.optionParameters s.restriction
  | delete s => Predicate.optionParameters s.restriction
  | select s => s.parameters

end Statement

/-! ### Commands -/

namespace Direct

variable {d : Dialect} {t : Table}

theorem positions_restriction {r : Option Predicate} {f : Filter} (h : restriction d (some t) r = .ok f) :
    f.positions = Predicate.optionParameters r := by
  cases r with
  | none =>
    obtain rfl := Except.ok.inj h
    rw [Filter.positions]
    rfl
  | some p =>
    rw [positions_filter h]
    exact (List.append_nil _).symm

/-- A row has no value without a field and no field without a value, so that none is left out. -/
theorem positions_row {fields : List FieldPath} {es : List Expression} {named : List (String × Term)}
    (h : row d (some t) fields es = .ok named) (hl : es.length = fields.length) :
    Term.fieldPositions named = es.flatMap Expression.parameters := by
  induction fields generalizing es named with
  | nil =>
    obtain rfl := List.length_eq_zero_iff.1 hl
    obtain rfl := Except.ok.inj h
    rfl
  | cons field rest ih =>
    cases es with
    | nil => simp at hl
    | cons e es =>
      obtain ⟨term, ht, h⟩ := bind_eq_ok.1 h
      obtain ⟨more, hm, h⟩ := bind_eq_ok.1 h
      obtain rfl := Except.ok.inj h
      have hrest := ih hm (Nat.succ.inj hl)
      rw [Term.fieldPositions, (valueOf_eq_ok ht).positions, hrest, List.flatMap_cons]

theorem positions_document {fields : List FieldPath} {es : List Expression} {doc : Template}
    (h : document d (some t) fields es = .ok doc) :
    (Term.template doc).positions = es.flatMap Expression.parameters := by
  obtain ⟨hl, hn, -⟩ := document_eq_ok h
  rw [Term.positions]
  exact positions_row hn hl

theorem positions_insert {s : Insert} {c : Command} (h : insert d s = .ok c) : c.positions = s.parameters := by
  obtain ⟨rows, collection, fields, documents, hsource, -, -, hd, -, rfl⟩ := insert_eq_ok h
  rw [Insert.parameters, hsource]
  exact flatMap_of_forall₂ hd fun _ _ => positions_document

/-! A list of columns has no parameters. -/

theorem parameters_selections {found selected : List Projection} {ss : List Selection}
    (h : projections d (some t) found ss = .ok selected) : ss.flatMap (·.expression.parameters) = [] := by
  induction ss generalizing found with
  | nil => rfl
  | cons s rest ih =>
    obtain ⟨p, hp, h⟩ := bind_eq_ok.1 h
    rw [List.flatMap_cons, (projection_eq_ok hp).2.parameters, ih h]
    rfl

theorem parameters_orderBy {fields : List Projection} {found keys : List SortKey} {ss : List SortItem}
    (h : sortKeys d (some t) fields found ss = .ok keys) : ss.flatMap (·.expression.parameters) = [] := by
  induction ss generalizing found with
  | nil => rfl
  | cons s rest ih =>
    obtain ⟨k, hk, h⟩ := bind_eq_ok.1 h
    obtain ⟨found', -, h⟩ := bind_eq_ok.1 h
    rw [List.flatMap_cons, (sortKey_eq_ok hk).2.parameters, ih h]
    rfl

namespace SelectParts

variable {s : Select} (p : SelectParts d s)

theorem positions_filter : p.filter.flatMap Stage.positions = Predicate.optionParameters s.restriction := by
  obtain ⟨hr, he⟩ | ⟨q, f, hr, hf, he⟩ := filterStage_eq_ok p.filter_eq
  · rw [he, hr]
    rfl
  · have hq : f.positions = q.parameters := Direct.positions_filter hf
    simp [he, hr, Predicate.optionParameters, Stage.positions, hq]

theorem positions_project : p.project.flatMap Stage.positions = [] := by
  obtain ⟨-, he⟩ | ⟨-, -, he⟩ := projectStage_eq_ok p.project_eq <;> rw [he] <;> rfl

theorem positions_sort : p.sort.flatMap Stage.positions = [] := by
  obtain ⟨-, he⟩ | ⟨-, he⟩ := sortStage_eq_ok p.sort_eq <;> rw [he] <;> rfl

end SelectParts

theorem positions_countStage {kind : CountStage} {clause : Option Expression} {stages : List Stage}
    (h : countStage d (some t) kind clause = .ok stages) :
    stages.flatMap Stage.positions = Expression.optionParameters clause := by
  obtain ⟨rfl, rfl⟩ | ⟨e, term, rfl, ht, -, rfl⟩ := countStage_eq_ok h
  · rfl
  · simp [Expression.optionParameters, ht.positions]

/-- A SELECT with a pipeline has neither joins nor groups. -/
theorem select_plain {s : Select} {c : Command} (h : select d s = .ok c) : s.joins = [] ∧ s.groupBy = [] := by
  unfold select at h
  split at h
  · simp at h
  · next hj =>
    obtain ⟨_, hc, -⟩ := bind_eq_ok.1 h
    refine ⟨hj, ?_⟩
    unfold Select.checkClauses at hc
    split at hc
    · simp at hc
    · next hg => simpa using hg

theorem positions_select {s : Select} {c : Command} (h : select d s = .ok c) : c.positions = s.parameters := by
  obtain ⟨hj, hg⟩ := select_plain h
  obtain ⟨p, rfl⟩ := select_eq_ok h
  rw [SelectParts.command, Command.positions, List.flatMap_append, List.flatMap_append, List.flatMap_append,
    List.flatMap_append, p.positions_filter, p.positions_project, p.positions_sort, positions_countStage p.skip_eq,
    positions_countStage p.limit_eq, Select.parameters, hj, hg, parameters_selections p.selected_eq,
    parameters_orderBy p.keys_eq]
  simp

/-- A planned command has the parameters of its statement, each as often. -/
theorem positions_command {s : Statement} {c : Command} (h : command d s = .ok c) :
    c.positions.Perm s.parameters := by
  cases s with
  | insert s => exact .of_eq (positions_insert h)
  | update s =>
    obtain ⟨collection, f, us, -, hf, hu, -, rfl⟩ := updateCommand_eq_ok h
    have hus : us.flatMap (·.value.positions) = s.assignments.flatMap (·.value.parameters) :=
      flatMap_of_forall₂ hu fun _ _ ha => (update_eq_ok ha).2.2.positions
    rw [Command.positions, positions_restriction hf, hus]
    exact List.perm_append_comm
  | delete s =>
    obtain ⟨collection, f, -, hf, rfl⟩ := delete_eq_ok h
    exact .of_eq (positions_restriction hf)
  | select s => exact .of_eq (positions_select h)

end Direct

/-! ### Sessions -/

/-- The value that a scalar is written as; one that the codec refuses has none. -/
def Codec.valueOf (c : Codec) (v : Scalar) : Value :=
  match c.encode v with
  | .ok w => w
  | .error _ => .undefined

theorem Codec.valueOf_eq {c : Codec} {v : Scalar} {w : Value} (h : c.encode v = .ok w) : c.valueOf v = w := by
  rw [valueOf, h]

namespace Session

theorem length_encodeAll {c : Codec} {vs : List Scalar} {ws : List Value} (h : encodeAll c vs = .ok ws) :
    ws.length = vs.length := by
  induction vs generalizing ws with
  | nil =>
    obtain rfl := Except.ok.inj h
    rfl
  | cons v rest ih =>
    obtain ⟨w, -, h⟩ := bind_eq_ok.1 h
    obtain ⟨more, hm, h⟩ := bind_eq_ok.1 h
    obtain rfl := Except.ok.inj h
    rw [List.length_cons, List.length_cons, ih hm]

theorem encodeAll_map {c : Codec} {vs : List Scalar} (h : ∀ v ∈ vs, ∃ w, c.encode v = .ok w) :
    encodeAll c vs = .ok (vs.map c.valueOf) := by
  induction vs with
  | nil => rfl
  | cons v rest ih =>
    obtain ⟨w, hw⟩ := h v (List.mem_cons_self ..)
    rw [encodeAll, hw, ih fun u hu => h u (List.mem_cons_of_mem _ hu), List.map_cons, Codec.valueOf_eq hw]
    rfl

theorem encodeAll_append {c : Codec} {vs vs' : List Scalar} {ws ws' : List Value} (h : encodeAll c vs = .ok ws)
    (h' : encodeAll c vs' = .ok ws') : encodeAll c (vs ++ vs') = .ok (ws ++ ws') := by
  induction vs generalizing ws with
  | nil =>
    obtain rfl := Except.ok.inj h
    exact h'
  | cons v rest ih =>
    obtain ⟨w, hw, h⟩ := bind_eq_ok.1 h
    obtain ⟨more, hm, h⟩ := bind_eq_ok.1 h
    obtain rfl := Except.ok.inj h
    rw [List.cons_append, encodeAll, hw, ih hm]
    rfl

theorem encodeAll_exact (vs : List Scalar) : encodeAll .exact vs = .ok (vs.map Codec.toWire) :=
  encodeAll_map fun v _ => ⟨Codec.toWire v, rfl⟩

theorem toFinset_eq_range {ps : List Nat} {k : Nat} : ps.toFinset = Finset.range k ↔ ∀ n, n ∈ ps ↔ n < k := by
  rw [Finset.ext_iff]
  simp only [List.mem_toFinset, Finset.mem_range]

/-- With every type kept as it is, a planned statement is rendered exactly if its parameters are those
supplied; any other list of values is refused. -/
theorem render_ok_iff {catalog : Catalog} {s : Statement} {c : Command}
    (h : Dialect.commandOf ⟨catalog, .exact⟩ s = .ok c) (values : List Scalar) :
    ((∃ doc, render ⟨catalog, .exact⟩ s values = .ok doc) ↔ s.parameters.toFinset = Finset.range values.length) ∧
      (s.parameters.toFinset ≠ Finset.range values.length →
        ∃ e, render ⟨catalog, .exact⟩ s values = .error e ∧ e.category = .parameter) := by
  have hplan : Direct.command ⟨catalog, .exact⟩ s = .ok c := (Dialect.commandOf_eq _ s).symm.trans h
  have hrender : render ⟨catalog, .exact⟩ s values = c.bind (values.map Codec.toWire) := by
    rw [render, h, ok_bind, encodeAll_exact]
    rfl
  have hwf := Direct.wellFormed_command hplan
  have hfits : s.parameters.toFinset = Finset.range values.length ↔
      ∀ n, n ∈ c.positions ↔ n < (values.map Codec.toWire).length := by
    rw [toFinset_eq_range, List.length_map]
    exact forall_congr' fun n => by rw [(Direct.positions_command hplan).mem_iff]
  rw [hrender]
  refine ⟨⟨?_, fun hs => ⟨_, Command.bind_eq_ok hwf (hfits.1 hs)⟩⟩, fun hs => ?_⟩
  · rintro ⟨doc, hdoc⟩
    exact hfits.2 ((Command.bind_eq_ok_iff hwf).1 hdoc).1
  · exact Command.bind_eq_error hwf fun hp => hs (hfits.2 hp)

end Session

/-- `UPDATE people SET age = ?1 WHERE ?0 < age AND NOT (name = ?1)` -/
def Update.older : Update where
  table := ⟨"people", none⟩
  assignments := [⟨⟨none, "age"⟩, .parameter 1⟩]
  restriction := some (.junction .all [.comparison .less (.parameter 0) (.column ⟨none, "age"⟩),
    .negated (.grouped (.comparison .equal (.column ⟨none, "name"⟩) (.parameter 1)))])

theorem Session.render_ok_iff_older :
    (∃ doc, render ⟨Dialect.people.catalog, .exact⟩ (.update .older) [.int32 1, .string "x"] = .ok doc) ∧
      (∃ e, render ⟨Dialect.people.catalog, .exact⟩ (.update .older) [.int32 1] = .error e ∧
        e.category = .parameter) ∧
      ∃ e, render ⟨Dialect.people.catalog, .exact⟩ (.update .older) [.int32 1, .int32 2, .int32 3] = .error e ∧
        e.category = .parameter := by
  have hplan : Dialect.commandOf ⟨Dialect.people.catalog, .exact⟩ (.update .older) =
      .ok (.update "persons" (.combination .and [.comparison ⟨"years"⟩ .gt (.placeholder 0),
        .combination .nor [.comparison ⟨"name"⟩ .eq (.placeholder 1)]]) [⟨⟨"years"⟩, .placeholder 1⟩]) :=
    (Dialect.commandOf_eq _ _).trans rfl
  have hp : (Statement.update .older).parameters = [1, 0, 1] := rfl
  refine ⟨(render_ok_iff hplan _).1.2 ?_, (render_ok_iff hplan _).2 ?_, (render_ok_iff hplan _).2 ?_⟩ <;>
    rw [hp] <;> decide

end RelDoc
