import RelDoc.Proofs.Parameters
import RelDoc.Proofs.Transparency

/-!
# Planning knows one table

A statement is planned with what the catalog says of its target. Nothing else is asked (`Dialect.Alike`), so two
catalogs that answer alike for the target plan every statement to the same command or to the same error. The reason
is that every column of a planned statement, however deep it stands, is one of the target, and that every field of
the command is the field of such a column (`Dialect.Resolves`).
-/

namespace RelDoc

open Outcome

/-- Two catalogs say the same of a table. -/
structure Catalog.AgreeOn (c c' : Catalog) (table : String) : Prop where
  collectionOf : c.collectionOf table = c'.collectionOf table
  fieldOf : ∀ column, c.fieldOf table column = c'.fieldOf table column
  isIdentifier : ∀ column, c.isIdentifier table column = c'.isIdentifier table column

/-! ### Two catalogs -/

/-- Two dialects answer alike whatever planning a statement on the table asks them. -/
structure Dialect.Alike (d d' : Dialect) (t : Table) : Prop where
  collectionOf : d.catalog.collectionOf t.name = d'.catalog.collectionOf t.name
  columnOperand : d.columnOperand (some t) = d'.columnOperand (some t)
  operand : d.operand (some t) = d'.operand (some t)
  isIdentifier : d.isIdentifier (some t) = d'.isIdentifier (some t)

theorem Catalog.AgreeOn.alike {c c' : Catalog} {t : Table} (h : c.AgreeOn c' t.name) (codec : Codec) :
    (⟨c, codec⟩ : Dialect).Alike ⟨c', codec⟩ t := by
  have hcolumn : (⟨c, codec⟩ : Dialect).columnOperand (some t) = (⟨c', codec⟩ : Dialect).columnOperand (some t) := by
    funext column
    simp only [Dialect.columnOperand, h.fieldOf]
  refine ⟨h.collectionOf, hcolumn, ?_, ?_⟩
  · funext e
    cases e with
    | column column => exact congrFun hcolumn column
    | _ => rfl
  · funext column
    exact h.isIdentifier column.name

namespace Direct

section Alike

variable {d d' : Dialect} {t : Table}

mutual
theorem filter_congr (h : d.Alike d' t) : ∀ p, filter d (some t) p = filter d' (some t) p
  | .comparison c left right => by rw [filter, filter, comparison, comparison, h.operand]
  | .junction kind parts => by rw [filter, filter, filters_congr h parts]
  | .negated p => by rw [filter, filter, filter_congr h p]
  | .grouped p => by rw [filter, filter, filter_congr h p]
  | .nullness .. | .membership .. | .pattern .. | .between .. => by rw [filter, filter]

theorem filters_congr (h : d.Alike d' t) : ∀ ps, filters d (some t) ps = filters d' (some t) ps
  | [] => by rw [filters, filters]
  | p :: rest => by rw [filters, filters, filter_congr h p, filters_congr h rest]
end

variable (h : d.Alike d' t)
include h

theorem fieldOf_congr : fieldOf d (some t) = fieldOf d' (some t) := by
  funext c
  rw [fieldOf, fieldOf, h.columnOperand]

theorem valueOf_congr : valueOf d (some t) = valueOf d' (some t) := by
  funext place e
  rw [valueOf, valueOf, h.operand]

theorem columnFieldOf_congr : columnFieldOf d (some t) = columnFieldOf d' (some t) := by
  funext place e
  rw [columnFieldOf, columnFieldOf, h.operand]

theorem restriction_congr : restriction d (some t) = restriction d' (some t) := by
  funext r
  cases r with
  | none => rfl
  | some p => exact filter_congr h p

theorem update_congr : update d (some t) = update d' (some t) := by
  funext a
  rw [update, update, fieldOf_congr h, h.isIdentifier, valueOf_congr h]

theorem row_congr : row d (some t) = row d' (some t) := by
  funext fields es
  induction fields generalizing es with
  | nil => rfl
  | cons field rest ih =>
    cases es with
    | nil => rfl
    | cons e es => rw [row, row, valueOf_congr h, ih]

theorem document_congr : document d (some t) = document d' (some t) := by
  funext fields es
  rw [document, document, row_congr h]

theorem projections_congr (found : List Projection) (items : List Selection) :
    projections d (some t) found items = projections d' (some t) found items := by
  induction items generalizing found with
  | nil => rfl
  | cons i rest ih => simp only [projections, projection, columnFieldOf_congr h, ih]

theorem sortKeys_congr (fields : List Projection) (found : List SortKey) (items : List SortItem) :
    sortKeys d (some t) fields found items = sortKeys d' (some t) fields found items := by
  induction items generalizing found with
  | nil => rfl
  | cons i rest ih => simp only [sortKeys, sortKey, columnFieldOf_congr h, ih]

theorem filterStage_congr : filterStage d (some t) = filterStage d' (some t) := by
  funext r
  cases r with
  | none => rfl
  | some p => rw [filterStage, filterStage, filter_congr h]

theorem countStage_congr : countStage d (some t) = countStage d' (some t) := by
  funext kind clause
  cases clause with
  | none => rfl
  | some e => rw [countStage, countStage, valueOf_congr h]

end Alike

/-- What a dialect is asked for a statement is about its target. -/
theorem command_congr {d d' : Dialect} {s : Statement} (h : d.Alike d' s.target) : command d s = command d' s := by
  cases s with
  | insert s =>
    have h : d.Alike d' s.table := h
    rw [command, command, insert, insert, h.collectionOf, fieldOf_congr h, document_congr h]
  | update s =>
    have h : d.Alike d' s.table := h
    rw [command, command, updateCommand, updateCommand, h.collectionOf, restriction_congr h, update_congr h]
  | delete s =>
    have h : d.Alike d' s.table := h
    rw [command, command, delete, delete, h.collectionOf, restriction_congr h]
  | select s =>
    have h : d.Alike d' s.table := h
    simp only [command, select, h.collectionOf, filterStage_congr h, projections_congr h, sortKeys_congr h,
      countStage_congr h]

end Direct

/-! ### Columns and fields -/

namespace Expression

mutual
/-- The columns of an expression, at any depth. -/
def columns : Expression → List Column
  | column c => [c]
  | literal _ | parameter _ | null => []
  | function _ arguments => listColumns arguments
  | arithmetic _ left right => columns left ++ columns right

def listColumns : List Expression → List Column
  | [] => []
  | e :: rest => columns e ++ listColumns rest
end

end Expression

namespace Predicate

mutual
/-- The columns of a predicate, at any depth and on either side. -/
def columns : Predicate → List Column
  | comparison _ left right => left.columns ++ right.columns
  | junction _ parts => listColumns parts
  | negated p => columns p
  | grouped p => columns p
  | nullness e _ => e.columns
  | membership e list _ => e.columns ++ Expression.listColumns list
  | pattern e like _ => e.columns ++ like.columns
  | between e lower upper _ => e.columns ++ lower.columns ++ upper.columns

def listColumns : List Predicate → List Column
  | [] => []
  | p :: rest => columns p ++ listColumns rest
end

end Predicate

/-- The columns of a SELECT. -/
def Select.columns (s : Select) : List Column :=
  s.selections.flatMap (·.expression.columns) ++
    s.joins.flatMap (fun j => j.condition.toList.flatMap Predicate.columns) ++
    s.restriction.toList.flatMap Predicate.columns ++ s.groupBy.flatMap Expression.columns ++
    s.orderBy.flatMap (·.expression.columns) ++ s.offset.toList.flatMap Expression.columns ++
    s.fetch.toList.flatMap Expression.columns

/-- The columns of a statement, wherever they stand. -/
def Statement.columns : Statement → List Column
  | insert s => s.columns ++
    match s.source with
    | .rows rows => rows.flatMap fun row => row.flatMap Expression.columns
    | .select q => q.columns
  | update s => s.assignments.flatMap (fun a => a.column :: a.value.columns) ++
    s.restriction.toList.flatMap Predicate.columns
  | delete s => s.restriction.toList.flatMap Predicate.columns
  | select s => s.columns

namespace Filter

mutual
/-- The fields that a filter tests. -/
def paths : Filter → List FieldPath
  | all => []
  | comparison path _ _ => [path]
  | combination _ parts => listPaths parts

def listPaths : List Filter → List FieldPath
  | [] => []
  | f :: rest => paths f ++ listPaths rest
end

end Filter

/-- The fields that a stage reads. A projection may also leave the primary key out. -/
def Stage.paths : Stage → List FieldPath
  | filter f => f.paths
  | project fields => (fields.filter Projection.included).map Projection.field
  | sort keys => keys.map SortKey.field
  | skip _ | limit _ => []

/-- The fields that a command reads or writes. -/
def Command.paths : Command → List FieldPath
  | insert _ documents => documents.flatMap fun d => d.map fun p => ⟨p.1⟩
  | update _ filter updates => filter.paths ++ updates.map FieldUpdate.field
  | delete _ filter => filter.paths
  | aggregate _ pipeline => pipeline.flatMap Stage.paths

/-- The column has no qualifier, or one that means the table. -/
def Column.IsOf (c : Column) (t : Table) : Prop := ∀ q, c.qualifier = some q → t.isQualifiedBy q = true

/-- The columns are columns of the table, and each of the fields is the field of one of them. -/
structure Dialect.Resolves (d : Dialect) (t : Table) (columns : List Column) (paths : List FieldPath) : Prop where
  own : ∀ c ∈ columns, c.IsOf t ∧ ∃ field, d.catalog.fieldOf t.name c.name = .ok field
  named : ∀ path ∈ paths, ∃ c ∈ columns, d.catalog.fieldOf t.name c.name = .ok path.text

namespace Dialect.Resolves

variable {d : Dialect} {t : Table} {columns columns' : List Column} {paths paths' : List FieldPath}

theorem nil : d.Resolves t [] [] :=
  ⟨fun _ hc => absurd hc List.not_mem_nil, fun _ hp => absurd hp List.not_mem_nil⟩

theorem append (h : d.Resolves t columns paths) (h' : d.Resolves t columns' paths') :
    d.Resolves t (columns ++ columns') (paths ++ paths') := by
  refine ⟨fun c hc => ?_, fun path hpath => ?_⟩
  · rcases List.mem_append.1 hc with hc | hc
    · exact h.own c hc
    · exact h'.own c hc
  · rcases List.mem_append.1 hpath with hpath | hpath
    · obtain ⟨c, hc, hfield⟩ := h.named path hpath
      exact ⟨c, List.mem_append_left _ hc, hfield⟩
    · obtain ⟨c, hc, hfield⟩ := h'.named path hpath
      exact ⟨c, List.mem_append_right _ hc, hfield⟩

/-- What counts of the columns is which they are; of the fields some may be left out. -/
theorem mono (h : d.Resolves t columns paths) (hc : ∀ c, c ∈ columns' ↔ c ∈ columns)
    (hp : ∀ path ∈ paths', path ∈ paths) : d.Resolves t columns' paths' := by
  refine ⟨fun c hcolumn => h.own c ((hc c).1 hcolumn), fun path hpath => ?_⟩
  obtain ⟨c, hcolumn, hfield⟩ := h.named path (hp path hpath)
  exact ⟨c, (hc c).2 hcolumn, hfield⟩

theorem flatMap {α β : Type} {R : α → β → Prop} {f : α → List Column} {g : β → List FieldPath} {as : List α}
    {bs : List β} (h : List.Forall₂ R as bs) (hR : ∀ a b, R a b → d.Resolves t (f a) (g b)) :
    d.Resolves t (as.flatMap f) (bs.flatMap g) := by
  induction h with
  | nil => exact .nil
  | cons hab _ ih => exact (hR _ _ hab).append ih

end Dialect.Resolves

/-- The field of an operand, if it is one. -/
def Operand.paths : Operand → List FieldPath
  | field path => [path]
  | value _ => []

namespace Direct

variable {d : Dialect} {t : Table}

theorem resolves_columnOperand {c : Column} {o : Operand} (h : d.columnOperand (some t) c = .ok o) :
    d.Resolves t [c] o.paths := by
  obtain ⟨field, hfield, rfl⟩ := Dialect.columnOperand_eq_ok h
  have hof : c.IsOf t := by
    intro q hq
    simp only [Dialect.columnOperand, hq] at h
    split at h
    · next hqualified => exact hqualified
    · simp at h
  constructor
  · intro c' hc
    obtain rfl := List.mem_singleton.1 hc
    exact ⟨hof, field, hfield⟩
  · intro path hpath
    obtain rfl := List.mem_singleton.1 hpath
    exact ⟨c, List.mem_singleton_self c, hfield⟩

theorem resolves_operand {e : Expression} {o : Operand} (h : d.operand (some t) e = .ok o) :
    d.Resolves t e.columns o.paths := by
  cases e with
  | column c =>
    rw [Expression.columns]
    exact resolves_columnOperand h
  | literal v =>
    cases Dialect.operand_eq_ok h
    exact .nil
  | parameter n =>
    cases Dialect.operand_eq_ok h
    exact .nil
  | _ => simp [Dialect.operand] at h

theorem resolves_fieldOf {c : Column} {path : FieldPath} (h : fieldOf d (some t) c = .ok path) :
    d.Resolves t [c] [path] := by
  obtain ⟨o, ho, h⟩ := bind_eq_ok.1 h
  cases o with
  | value _ => simp [Operand.columnField] at h
  | field found =>
    obtain rfl := Except.ok.inj h
    exact resolves_columnOperand ho

theorem resolves_value {e : Expression} {term : Term} (h : d.Plans t e (.value term)) : d.Resolves t e.columns [] := by
  cases h <;> exact .nil

theorem resolves_columnFieldOf {place : ColumnPlace} {e : Expression} {path : FieldPath}
    (h : columnFieldOf d (some t) place e = .ok path) : d.Resolves t e.columns [path] := by
  obtain ⟨o, ho, h⟩ := bind_eq_ok.1 h
  cases o with
  | value _ => simp [Operand.toField] at h
  | field found =>
    obtain rfl := Except.ok.inj h
    exact resolves_operand ho

theorem paths_comparisonFilter {c : Comparison} {operator : QueryOperator} {left right : Operand} {f : Filter}
    (h : comparisonFilter c operator left right = .ok f) : f.paths = left.paths ++ right.paths := by
  unfold comparisonFilter at h
  split at h
  · obtain rfl := Except.ok.inj h
    rw [Filter.paths]
    rfl
  · obtain ⟨flipped, -, h⟩ := bind_eq_ok.1 h
    obtain rfl := Except.ok.inj h
    rw [Filter.paths]
    rfl
  · simp at h
  · simp at h

/-! ### Statements -/

mutual
theorem resolves_filter : ∀ {p : Predicate} {f : Filter}, filter d (some t) p = .ok f →
    d.Resolves t p.columns f.paths
  | .comparison c left right, f, h => by
    rw [filter] at h
    obtain ⟨operator, -, h⟩ := bind_eq_ok.1 h
    obtain ⟨l, hl, h⟩ := bind_eq_ok.1 h
    obtain ⟨r, hr, h⟩ := bind_eq_ok.1 h
    rw [paths_comparisonFilter h, Predicate.columns]
    exact (resolves_operand hl).append (resolves_operand hr)
  | .junction kind parts, f, h => by
    rw [filter] at h
    obtain ⟨fs, hfs, h⟩ := bind_eq_ok.1 h
    obtain ⟨-, rfl⟩ := Filter.combine_eq_ok h
    rw [Filter.paths, Predicate.columns]
    exact resolves_filters hfs
  | .negated p, f, h => by
    rw [filter] at h
    obtain ⟨inner, hi, h⟩ := bind_eq_ok.1 h
    obtain ⟨-, rfl⟩ := Filter.combine_eq_ok h
    rw [Filter.paths, Filter.listPaths, Filter.listPaths, List.append_nil, Predicate.columns]
    exact resolves_filter hi
  | .grouped p, f, h => by
    rw [filter] at h
    rw [Predicate.columns]
    exact resolves_filter h
  | .nullness .., f, h | .membership .., f, h | .pattern .., f, h | .between .., f, h => by simp [filter] at h

theorem resolves_filters : ∀ {ps : List Predicate} {fs : List Filter}, filters d (some t) ps = .ok fs →
    d.Resolves t (Predicate.listColumns ps) (Filter.listPaths fs)
  | [], fs, h => by
    rw [filters] at h
    obtain rfl := Except.ok.inj h
    rw [Predicate.listColumns, Filter.listPaths]
    exact .nil
  | p :: rest, fs, h => by
    rw [filters] at h
    obtain ⟨f, hf, h⟩ := bind_eq_ok.1 h
    obtain ⟨more, hm, h⟩ := bind_eq_ok.1 h
    obtain rfl := Except.ok.inj h
    rw [Predicate.listColumns, Filter.listPaths]
    exact (resolves_filter hf).append (resolves_filters hm)
end

theorem resolves_restriction {r : Option Predicate} {f : Filter} (h : restriction d (some t) r = .ok f) :
    d.Resolves t (r.toList.flatMap Predicate.columns) f.paths := by
  cases r with
  | none =>
    obtain rfl := Except.ok.inj h
    rw [Filter.paths]
    exact .nil
  | some p => simpa using resolves_filter h

theorem resolves_update {a : Assignment} {u : FieldUpdate} (h : update d (some t) a = .ok u) :
    d.Resolves t (a.column :: a.value.columns) [u.field] := by
  obtain ⟨field, hfield, h⟩ := bind_eq_ok.1 h
  obtain ⟨identifier, -, h⟩ := bind_eq_ok.1 h
  split at h
  · simp at h
  · obtain ⟨value, hvalue, h⟩ := bind_eq_ok.1 h
    obtain rfl := Except.ok.inj h
    exact (resolves_fieldOf hfield).append (resolves_value (valueOf_eq_ok hvalue))

theorem resolves_row {fields : List FieldPath} {es : List Expression} {named : List (String × Term)}
    (h : row d (some t) fields es = .ok named) (hlength : es.length = fields.length) :
    d.Resolves t (es.flatMap Expression.columns) [] := by
  induction fields generalizing es named with
  | nil =>
    obtain rfl := List.length_eq_zero_iff.1 hlength
    exact .nil
  | cons field rest ih =>
    cases es with
    | nil => exact .nil
    | cons e es =>
      obtain ⟨term, hterm, h⟩ := bind_eq_ok.1 h
      obtain ⟨more, hmore, -⟩ := bind_eq_ok.1 h
      exact (resolves_value (valueOf_eq_ok hterm)).append (ih hmore (Nat.succ.inj hlength))

/-- A document names the fields of its columns, and its values have columns of the table only. -/
theorem resolves_document {fields : List FieldPath} {es : List Expression} {doc : Template}
    (h : document d (some t) fields es = .ok doc) :
    d.Resolves t (es.flatMap Expression.columns) [] ∧ ∀ p ∈ doc, ⟨p.1⟩ ∈ fields := by
  obtain ⟨hlength, hrow, -⟩ := document_eq_ok h
  refine ⟨resolves_row hrow hlength, fun p hp => ?_⟩
  obtain ⟨terms, -, rfl⟩ := row_eq_ok hrow hlength
  obtain ⟨field, hfield, htext⟩ := List.mem_map.1 (List.of_mem_zip hp).1
  rwa [← htext]

theorem resolves_insert {s : Insert} {c : Command} (h : insert d s = .ok c) :
    d.Resolves s.table (Statement.insert s).columns c.paths := by
  obtain ⟨rows, collection, fields, documents, hsource, -, hfields, hdocuments, -, rfl⟩ := insert_eq_ok h
  have hcolumns : d.Resolves s.table s.columns fields := by
    have heach : d.Resolves s.table (s.columns.flatMap fun c => [c]) (fields.flatMap fun field => [field]) :=
      .flatMap hfields fun _ _ => resolves_fieldOf
    simpa using heach
  have hvalues : d.Resolves s.table (rows.flatMap fun row => row.flatMap Expression.columns)
      (documents.flatMap fun _ => []) :=
    .flatMap hdocuments fun _ _ hdoc => (resolves_document hdoc).1
  refine (hcolumns.append hvalues).mono (fun c => by simp [Statement.columns, hsource]) fun path hpath => ?_
  obtain ⟨doc, hdoc, hpath⟩ := List.mem_flatMap.1 hpath
  obtain ⟨p, hp, rfl⟩ := List.mem_map.1 hpath
  obtain ⟨row, -, hrow⟩ := forall₂_mem_right hdocuments hdoc
  exact List.mem_append_left _ ((resolves_document hrow).2 p hp)

theorem resolves_projections {columns : List Column} {found selected : List Projection} {items : List Selection}
    (hfound : d.Resolves t columns (found.map Projection.field))
    (h : projections d (some t) found items = .ok selected) :
    d.Resolves t (columns ++ items.flatMap (·.expression.columns)) (selected.map Projection.field) := by
  induction items generalizing columns found with
  | nil =>
    obtain rfl := Except.ok.inj h
    rwa [List.flatMap_nil, List.append_nil]
  | cons i rest ih =>
    obtain ⟨q, hq, h⟩ := bind_eq_ok.1 h
    obtain ⟨field, hfield, hq⟩ := bind_eq_ok.1 hq
    obtain rfl := Except.ok.inj hq
    have hadded : d.Resolves t (columns ++ i.expression.columns)
        ((addProjection found ⟨field, true⟩).map Projection.field) := by
      refine (hfound.append (resolves_columnFieldOf hfield)).mono (fun _ => Iff.rfl) fun path hpath => ?_
      -- a field that is passed over is one of those found before
      unfold addProjection at hpath
      split at hpath
      · exact List.mem_append_left _ hpath
      · rwa [List.map_append] at hpath
    rw [List.flatMap_cons, ← List.append_assoc]
    exact ih hadded h

theorem resolves_sortKeys {columns : List Column} {fields : List Projection} {found keys : List SortKey}
    {items : List SortItem} (hfound : d.Resolves t columns (found.map SortKey.field))
    (h : sortKeys d (some t) fields found items = .ok keys) :
    d.Resolves t (columns ++ items.flatMap (·.expression.columns)) (keys.map SortKey.field) := by
  induction items generalizing columns found with
  | nil =>
    obtain rfl := Except.ok.inj h
    rwa [List.flatMap_nil, List.append_nil]
  | cons i rest ih =>
    obtain ⟨k, hk, h⟩ := bind_eq_ok.1 h
    obtain ⟨field, hfield, hk⟩ := bind_eq_ok.1 hk
    obtain rfl := Except.ok.inj hk
    obtain ⟨found', hadd, h⟩ := bind_eq_ok.1 h
    have hadded : d.Resolves t (columns ++ i.expression.columns) (found'.map SortKey.field) := by
      refine (hfound.append (resolves_columnFieldOf hfield)).mono (fun _ => Iff.rfl) fun path hpath => ?_
      unfold addSortKey at hadd
      split at hadd
      · simp at hadd
      · split at hadd
        · obtain rfl := Except.ok.inj hadd
          exact List.mem_append_left _ hpath
        · obtain rfl := Except.ok.inj hadd
          rwa [List.map_append] at hpath
    rw [List.flatMap_cons, ← List.append_assoc]
    exact ih hadded h

namespace SelectParts

variable {s : Select} (p : SelectParts d s)

theorem resolves_filter : d.Resolves s.table (s.restriction.toList.flatMap Predicate.columns)
    (p.filter.flatMap Stage.paths) := by
  rcases filterStage_eq_ok p.filter_eq with ⟨hnone, hstage⟩ | ⟨q, f, hsome, hf, hstage⟩
  · rw [hnone, hstage]
    exact .nil
  · rw [hsome, hstage]
    simpa [Stage.paths] using Direct.resolves_filter hf

theorem resolves_project : d.Resolves s.table (s.selections.flatMap (·.expression.columns))
    (p.project.flatMap Stage.paths) := by
  have hselected := resolves_projections Dialect.Resolves.nil p.selected_eq
  refine hselected.mono (fun _ => Iff.rfl) fun path hpath => ?_
  rcases projectStage_eq_ok p.project_eq with ⟨-, hstage⟩ | ⟨-, -, hstage⟩
  · simp [hstage] at hpath
  · rw [hstage, List.flatMap_singleton, Stage.paths] at hpath
    obtain ⟨q, hq, rfl⟩ := List.mem_map.1 hpath
    obtain ⟨hq, hincluded⟩ := List.mem_filter.1 hq
    -- the entry that leaves the primary key out is not included
    unfold completeProjection at hq
    split at hq
    · exact List.mem_map_of_mem hq
    · rcases List.mem_append.1 hq with hq | hq
      · exact List.mem_map_of_mem hq
      · obtain rfl := List.mem_singleton.1 hq
        simp at hincluded

theorem resolves_sort : d.Resolves s.table (s.orderBy.flatMap (·.expression.columns))
    (p.sort.flatMap Stage.paths) := by
  have hkeys := resolves_sortKeys Dialect.Resolves.nil p.keys_eq
  rcases sortStage_eq_ok p.sort_eq with ⟨hnil, hstage⟩ | ⟨-, hstage⟩
  · rw [hstage]
    rwa [hnil] at hkeys
  · rw [hstage]
    simpa [Stage.paths] using hkeys

end SelectParts

theorem resolves_countStage {kind : CountStage} {clause : Option Expression} {stages : List Stage}
    (h : countStage d (some t) kind clause = .ok stages) :
    d.Resolves t (clause.toList.flatMap Expression.columns) (stages.flatMap Stage.paths) := by
  rcases countStage_eq_ok h with ⟨rfl, rfl⟩ | ⟨e, term, rfl, hplan, -, rfl⟩
  · exact .nil
  · have hpaths : (kind.stage term).paths = [] := by cases kind <;> rfl
    simpa [hpaths] using resolves_value hplan

theorem resolves_select {s : Select} {c : Command} (h : select d s = .ok c) : d.Resolves s.table s.columns c.paths := by
  obtain ⟨hjoins, hgroup⟩ := select_plain h
  obtain ⟨p, rfl⟩ := select_eq_ok h
  have hall := (((p.resolves_filter.append p.resolves_project).append p.resolves_sort).append
    (resolves_countStage p.skip_eq)).append (resolves_countStage p.limit_eq)
  refine hall.mono (fun c => ?_) fun path hpath => ?_
  · simp only [Select.columns, hjoins, hgroup, List.flatMap_nil, List.append_nil, List.mem_append]
    tauto
  · simpa [SelectParts.command, Command.paths] using hpath

/-- A planned statement has columns of its target only, and the fields of its command are fields of these columns. -/
theorem resolves_command {s : Statement} {c : Command} (h : command d s = .ok c) :
    d.Resolves s.target s.columns c.paths := by
  cases s with
  | insert s => exact resolves_insert h
  | update s =>
    obtain ⟨collection, f, us, -, hf, hus, -, rfl⟩ := updateCommand_eq_ok h
    have hupdates : d.Resolves s.table (s.assignments.flatMap fun a => a.column :: a.value.columns)
        (us.flatMap fun u => [u.field]) := .flatMap hus fun _ _ => resolves_update
    refine (hupdates.append (resolves_restriction hf)).mono (fun _ => Iff.rfl) fun path hpath => ?_
    rw [← List.map_eq_flatMap, List.mem_append]
    exact (List.mem_append.1 hpath).symm
  | delete s =>
    obtain ⟨collection, f, -, hf, rfl⟩ := delete_eq_ok h
    exact resolves_restriction hf
  | select s => exact resolves_select h

end Direct

/-- A statement is planned to the same command or to the same error with every catalog that says the same of its
target, whatever it says of other tables. If there is a command, then all columns of the statement are columns of the
target that are mapped, and each field of the command is the field of one of them. -/
theorem Dialect.commandOf_target (d : Dialect) (s : Statement) :
    (∀ catalog : Catalog, d.catalog.AgreeOn catalog s.target.name →
      (⟨catalog, d.codec⟩ : Dialect).commandOf s = d.commandOf s) ∧
    ∀ c, d.commandOf s = .ok c → d.Resolves s.target s.columns c.paths := by
  constructor
  · intro catalog h
    rw [commandOf_eq, commandOf_eq]
    exact (Direct.command_congr (h.alike d.codec)).symm
  · intro c h
    rw [d.commandOf_eq] at h
    exact Direct.resolves_command h

/-- People beside a table of their pets. -/
def Catalog.withPets : Catalog :=
  .ofMappings
    [{ table := "people", collection := "persons", idColumn := some "id",
       columns := [("age", "years"), ("name", "name")] },
     { table := "pet", collection := "pets", columns := [("age", "months")] }]

/-- `DELETE FROM people p WHERE NOT (65 > p.age OR people.id = ?)` -/
def Delete.elders : Delete where
  table := ⟨"people", some "p"⟩
  restriction := some (.negated (.junction .any
    [.comparison .greater (.literal (.int32 65)) (.column ⟨some "p", "age"⟩),
      .comparison .equal (.column ⟨some "people", "id"⟩) (.parameter 0)]))

/-- `DELETE FROM people WHERE pet.age = 3` -/
def Delete.owners : Delete where
  table := ⟨"people", none⟩
  restriction := some (.comparison .equal (.column ⟨some "pet", "age"⟩) (.literal (.int32 3)))

/-- The mapping of the pets makes no difference, neither to a command nor to an error. -/
theorem Dialect.commandOf_target_withPets : ∃ c,
    (⟨.withPets, .exact⟩ : Dialect).commandOf (.delete .elders) = .ok c ∧ c.paths = [⟨"years"⟩, ⟨"_id"⟩] ∧
    people.Resolves Delete.elders.table (Statement.delete .elders).columns c.paths ∧
    (⟨.withPets, .exact⟩ : Dialect).commandOf (.delete .owners) =
      .error (.unsupported (.foreignColumn "pet" "age" "people")) := by
  have hagree : people.catalog.AgreeOn .withPets "people" := ⟨rfl, fun _ => rfl, fun _ => rfl⟩
  have helders : people.commandOf (.delete .elders) = .ok (.delete "persons" (.combination .nor
      [.combination .or [.comparison ⟨"years"⟩ .lt (.literal (.int32 65)),
        .comparison ⟨"_id"⟩ .eq (.placeholder 0)]])) := (people.commandOf_eq _).trans rfl
  have howners : people.commandOf (.delete .owners) = .error (.unsupported (.foreignColumn "pet" "age" "people")) :=
    (people.commandOf_eq _).trans rfl
  obtain ⟨hsame, hresolves⟩ := people.commandOf_target (.delete .elders)
  refine ⟨_, (hsame .withPets hagree).trans helders, ?_, hresolves _ helders, ?_⟩
  · simp [Command.paths, Filter.paths, Filter.listPaths]
  · exact ((people.commandOf_target (.delete .owners)).1 .withPets hagree).trans howners

end RelDoc
