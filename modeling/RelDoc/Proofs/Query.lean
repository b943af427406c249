import RelDoc.Proofs.Projecting
import RelDoc.Proofs.Rendered
import RelDoc.Proofs.Sorted

/-!
# Queries answer their SELECT

`Dialect.answer` is what a SELECT asks of the documents of its table: the rows it restricts to, sorted
under the whole ORDER BY list as they are stored, then cut down to the selected fields, then counted off.
The pipeline of the statement projects before it sorts and sorts by each field once. It answers the same,
since the fields sorted by are among the selected ones (`Direct.sortKeys_eq_ok`) and repeated ones decide
nothing. It fails where the value of a parameter is no count (`Select.Miscounts`), and otherwise only if the
rows cannot be sorted, which takes many rows and a not-a-number among the values that they are sorted by.
-/

namespace RelDoc

open Outcome

/-- No field of the catalog has a dotted name. -/
def Catalog.Undotted (c : Catalog) : Prop :=
  ∀ table column field, c.fieldOf table column = .ok field → '.' ∉ field.toList

theorem Catalog.undotted_ofMappings {mappings : List TableMapping}
    (h : ∀ m ∈ mappings, ∀ p ∈ m.columns, '.' ∉ p.2.toList) : (ofMappings mappings).Undotted := by
  intro table column field hf
  rcases mem_of_fieldOf hf with rfl | ⟨m, hm, hp⟩
  · decide
  · exact h m hm _ hp

namespace Value

/-- The integer inside a value, if it is one. -/
def integer? : Value → Option Int
  | int32 n => some n.toInt
  | int64 n => some n.toInt
  | _ => none

end Value

/-! ### What a SELECT asks for -/

namespace Dialect

variable (d : Dialect) (σ : Nat → Value) (s : Select)

/-- The paths of the ORDER BY list, repeated ones included. -/
def orderPaths (t : Table) (items : List SortItem) : List Pipeline.SortPath :=
  items.filterMap fun i => (d.field? t i.expression).map fun field => ⟨field, i.direction = .descending⟩

/-- The count of an OFFSET or FETCH clause. -/
def countOf (clause : Option Expression) : Option Int :=
  clause.bind fun e => (d.constant? σ e).bind Value.integer?

/-- The documents that a SELECT restricts itself to. -/
def restricted (documents : List Document) : List Document :=
  documents.filter fun row => d.takes s.table σ row s.restriction

/-- These in the order that the whole ORDER BY list puts them in, cut down to the selected fields. -/
def sorted (documents : List Document) : List Document :=
  (Pipeline.insertRows (d.orderPaths s.table s.orderBy) (d.restricted σ s documents)).map
    (pick (Direct.selectedFields d s.table s.selections))

/-- The rows that a SELECT answers with. -/
def answer (documents : List Document) : List Document :=
  let rest := (d.sorted σ s documents).drop ((d.countOf σ s.offset).getD 0).toNat
  match d.countOf σ s.fetch with
  | some n => rest.take n.toNat
  | none => rest

end Dialect

/-- Is the clause a parameter whose value is no integer from `least` on? -/
def Expression.Miscounts (σ : Nat → Value) (least : Int) (clause : Option Expression) : Prop :=
  ∃ n, clause = some (.parameter n) ∧ ¬ ∃ k, (σ n).integer? = some k ∧ least ≤ k

/-- OFFSET takes the integers from zero on and FETCH the positive ones. -/
def Select.Miscounts (s : Select) (σ : Nat → Value) : Prop :=
  Expression.Miscounts σ 0 s.offset ∨ Expression.Miscounts σ 1 s.fetch

namespace Pipeline

theorem sortValue_pick {names : List String} {path : String} (hu : '.' ∉ path.toList)
    (hm : names = [] ∨ path ∈ names) (row : Document) : sortValue path (pick names row) = sortValue path row := by
  rcases hm with rfl | hm
  · rfl
  · rw [sortValue, sortValue, Document.lookup_of_undotted hu, Document.lookup_of_undotted hu, get?_pick hm]

/-! ### Stages -/

theorem run_append (rows : List Document) (as bs : List Document) :
    run rows (as ++ bs) = (do run (← run rows as) bs) := by
  induction as generalizing rows with
  | nil => rfl
  | cons stage rest ih =>
    cases stage with
    | nil => rfl
    | cons p more =>
      rw [List.cons_append, run, run]
      cases runStage p.1 p.2 rows with
      | error e => rfl
      | ok after => exact ih after

theorem run_single (name : String) (argument : Value) (rows : List Document) :
    run rows [[(name, argument)]] = runStage name argument rows := by
  rw [run]
  cases runStage name argument rows <;> rfl

theorem run_fill (σ : Nat → Value) (rows : List Document) (s : Stage) :
    run rows [s.fill σ] = runStage s.name (s.argument σ) rows := run_single ..

theorem filterRows_eq {filter : Document} {p : Document → Bool} {rows : List Document}
    (h : ∀ row ∈ rows, row.satisfies filter = .ok (p row)) : filterRows filter rows = .ok (rows.filter p) := by
  induction rows with
  | nil => rfl
  | cons row rest ih =>
    rw [filterRows, h row (List.mem_cons_self ..), ih fun r hr => h r (List.mem_cons_of_mem _ hr), List.filter_cons]
    cases p row <;> rfl

theorem runStage_skip (argument : Value) (rows : List Document) : runStage CountStage.skip.token argument rows =
    (do return rows.drop (← countArgument CountStage.skip.token argument)) := by
  rw [runStage, if_neg (by decide), if_neg (by decide), if_neg (by decide)]
  exact if_pos rfl

theorem runStage_limit (argument : Value) (rows : List Document) : runStage CountStage.limit.token argument rows = (do
    let count ← countArgument CountStage.limit.token argument
    if count = 0 then throw (.store .zeroLimit) else return rows.take count) := by
  rw [runStage, if_neg (by decide), if_neg (by decide), if_neg (by decide), if_neg (by decide)]
  exact if_pos rfl

theorem countArgument_eq (stage : String) (v : Value) : countArgument stage v =
    match v.integer? with
    | none => .error (.store (.stageInteger stage v))
    | some n => if 0 ≤ n then .ok n.toNat else .error (.store (.stageNegative stage)) := by
  cases v <;> rfl

end Pipeline

/-- The path of a sort key. -/
def SortKey.path (k : SortKey) : Pipeline.SortPath := ⟨k.field.text, k.direction = .descending⟩

theorem Pipeline.sortPaths_eq (keys : List SortKey) :
    sortPaths (keys.map fun k => (k.field.text, .int32 k.direction.sign)) = .ok (keys.map SortKey.path) := by
  induction keys with
  | nil => rfl
  | cons k rest ih =>
    obtain ⟨field, direction⟩ := k
    rw [List.map_cons, sortPaths, ih]
    cases direction <;> rfl

namespace Direct

variable {d : Dialect} {t : Table} {σ : Nat → Value}

/-- A key is added to the end, unless its field is sorted by already, and only if the projection keeps it. -/
theorem addSortKey_eq_ok {fields : List Projection} {found keys : List SortKey} {k : SortKey}
    (h : addSortKey fields found k = .ok keys) :
    (∀ a b, Pipeline.compareRows (keys.map SortKey.path) a b =
      Pipeline.compareRows (found.map SortKey.path ++ [k.path]) a b) ∧
      (fields = [] ∨ ∃ q ∈ fields, q.included = true ∧ q.field.text = k.path.path) := by
  unfold addSortKey at h
  split at h
  · simp at h
  case isFalse hshown =>
    constructor
    · intro a b
      split at h
      case isTrue hrep =>
        obtain rfl := Except.ok.inj h
        obtain ⟨q, hq, he⟩ := List.any_eq_true.1 hrep
        have he : q.field = k.field := by simpa using he
        have hmem : q.path ∈ found.map SortKey.path := List.mem_map.2 ⟨q, hq, rfl⟩
        have hpath : q.path.path = k.path.path := congrArg FieldPath.text he
        exact (Pipeline.compareRows_repeated hmem hpath a b).symm
      case isFalse =>
        obtain rfl := Except.ok.inj h
        rw [List.map_append, List.map_singleton]
    · by_cases hnil : fields = []
      · exact .inl hnil
      · right
        simp only [Bool.and_eq_true, Bool.not_eq_true', not_and, Bool.not_eq_false,
          List.isEmpty_eq_false_iff] at hshown
        obtain ⟨q, hq, he⟩ := List.any_eq_true.1 (hshown hnil)
        rw [Bool.and_eq_true, decide_eq_true_iff] at he
        exact ⟨q, hq, he.1, congrArg FieldPath.text he.2⟩

/-- Sort keys order rows like the whole list, and the paths of the list are kept by the projection. -/
theorem sortKeys_eq_ok {fields : List Projection} {found keys : List SortKey} {items : List SortItem}
    (h : sortKeys d (some t) fields found items = .ok keys) :
    (∀ a b, Pipeline.compareRows (keys.map SortKey.path) a b =
      Pipeline.compareRows (found.map SortKey.path ++ d.orderPaths t items) a b) ∧
      (fields = [] ∨ ∀ p ∈ d.orderPaths t items, ∃ q ∈ fields, q.included = true ∧ q.field.text = p.path) := by
  induction items generalizing found with
  | nil =>
    obtain rfl := Except.ok.inj h
    exact ⟨fun a b => by simp [Dialect.orderPaths], .inr fun p hp => by simp [Dialect.orderPaths] at hp⟩
  | cons i rest ih =>
    obtain ⟨k, hk, h⟩ := bind_eq_ok.1 h
    obtain ⟨found', hf, h⟩ := bind_eq_ok.1 h
    obtain ⟨hdir, hplan⟩ := sortKey_eq_ok hk
    obtain ⟨hadd, hshown⟩ := addSortKey_eq_ok hf
    obtain ⟨horder, hkept⟩ := ih h
    have hpaths : d.orderPaths t (i :: rest) = k.path :: d.orderPaths t rest := by
      rw [Dialect.orderPaths, List.filterMap_cons, hplan.field?_eq, SortKey.path, hdir]
      rfl
    rw [hpaths]
    constructor
    · -- the key of `i` stands between the keys before it and the paths that follow
      intro a b
      rw [horder, Pipeline.compareRows_append, hadd, ← Pipeline.compareRows_append, List.append_assoc,
        List.singleton_append]
    · rcases hshown with hnil | hshown
      · exact .inl hnil
      rcases hkept with hnil | hkept
      · exact .inl hnil
      refine .inr fun p hp => ?_
      rcases List.mem_cons.1 hp with rfl | hp
      · exact hshown
      · exact hkept p hp

theorem run_filter (f : Filter) (rows : List Document) :
    Pipeline.run rows [(Stage.filter f).fill σ] = Pipeline.filterRows (f.fill σ) rows := by
  rw [Pipeline.run_fill, Stage.name, Stage.argument, Pipeline.runStage, if_pos rfl, Pipeline.documentArgument, ok_bind]

/-- The rows that the restriction takes. -/
theorem run_filterStage (hp : d.catalog.Plain) (hc : d.codec.Distinct) (hσ : ∀ n, (σ n).Distinct)
    {r : Option Predicate} {stages : List Stage} (h : filterStage d (some t) r = .ok stages) {rows : List Document}
    (hrows : ∀ row ∈ rows, (Value.document row).Distinct) :
    Pipeline.run rows (stages.map (Stage.fill σ)) = .ok (rows.filter fun row => d.takes t σ row r) := by
  obtain ⟨rfl, rfl⟩ | ⟨p, f, rfl, hf, rfl⟩ := filterStage_eq_ok h
  · simp [Dialect.takes, Pipeline.run]
  · rw [List.map_singleton, run_filter]
    exact Pipeline.filterRows_eq fun row hr => Dialect.satisfies_fill hp hc hσ (hrows row hr) hf

theorem run_project {fields : List Projection} (rows : List Document) :
    Pipeline.run rows [(Stage.project fields).fill σ] = Pipeline.project rows (projectionSpec fields) := by
  rw [Pipeline.run_fill, Stage.name, Stage.argument, Pipeline.runStage, if_neg (by decide), if_pos rfl,
    Pipeline.documentArgument, ok_bind]
  rfl

theorem run_sort {keys : List SortKey} (rows : List Document) :
    Pipeline.run rows [(Stage.sort keys).fill σ] = Pipeline.sortRows (keys.map SortKey.path) rows := by
  rw [Pipeline.run_fill, Stage.name, Stage.argument, Pipeline.runStage, if_neg (by decide), if_neg (by decide),
    if_pos rfl, Pipeline.documentArgument, ok_bind, Pipeline.sort, Pipeline.sortPaths_eq]
  rfl

theorem mem_orderPaths (hu : d.catalog.Undotted) {items : List SortItem} {p : Pipeline.SortPath}
    (hp : p ∈ d.orderPaths t items) : '.' ∉ p.path.toList := by
  obtain ⟨i, -, hi⟩ := List.mem_filterMap.1 hp
  obtain ⟨field, hf, rfl⟩ := Option.map_eq_some_iff.1 hi
  cases he : i.expression with
  | column c =>
    rw [he, Dialect.field?] at hf
    cases hc : d.catalog.fieldOf t.name c.name with
    | error e => simp [hc, Except.toOption] at hf
    | ok name =>
      rw [hc] at hf
      obtain rfl := Option.some.inj hf
      exact hu _ _ _ hc
  | _ => simp [he, Dialect.field?] at hf

namespace SelectParts

variable {s : Select} (p : SelectParts d s)

theorem selected_included : ∀ q ∈ p.selected, q.included = true :=
  (projections_eq_ok p.selected_eq fun _ hq => absurd hq List.not_mem_nil).1

theorem mem_selected (name : String) :
    (∃ q ∈ p.selected, q.field.text = name) ↔ name ∈ selectedFields d s.table s.selections := by
  rw [(projections_eq_ok p.selected_eq fun _ hq => absurd hq List.not_mem_nil).2]
  simp

theorem selectedFields_eq_nil (h : p.selected = []) : selectedFields d s.table s.selections = [] := by
  refine List.eq_nil_iff_forall_not_mem.2 fun name hn => ?_
  obtain ⟨q, hq, -⟩ := (p.mem_selected name).2 hn
  rw [h] at hq
  exact List.not_mem_nil hq

theorem selected_eq_nil (h : completeProjection p.selected = []) : p.selected = [] := by
  unfold completeProjection at h
  split at h
  · exact h
  · exact absurd h (by simp)

theorem run_project {rows : List Document} (hrows : ∀ row ∈ rows, (Dict.keys row).Nodup) :
    Pipeline.run rows (p.project.map (Stage.fill σ)) =
      .ok (rows.map (pick (selectedFields d s.table s.selections))) := by
  obtain ⟨hnil, he⟩ | ⟨hne, hc, he⟩ := projectStage_eq_ok p.project_eq
  · have hpick : pick [] = id := funext fun row => if_pos rfl
    rw [he, p.selectedFields_eq_nil (p.selected_eq_nil hnil), hpick, List.map_id]
    rfl
  · have hnames : selectedFields d s.table s.selections ≠ [] := by
      obtain ⟨q, hq⟩ := List.exists_mem_of_ne_nil p.selected fun hn => hne (by rw [hn]; rfl)
      exact List.ne_nil_of_mem ((p.mem_selected _).1 ⟨q, hq, rfl⟩)
    rw [he, List.map_singleton, Direct.run_project]
    exact project_completed p.selected_included p.mem_selected hnames hc hrows

theorem run_sort (rows : List Document) : Pipeline.run rows (p.sort.map (Stage.fill σ)) =
    Pipeline.sortRows (p.keys.map SortKey.path) rows := by
  obtain ⟨hnil, he⟩ | ⟨-, he⟩ := sortStage_eq_ok p.sort_eq
  · rw [he, hnil, List.map_nil, List.map_nil, Pipeline.sortRows_nil]
    rfl
  · rw [he, List.map_singleton, Direct.run_sort]

include p in
/-- The paths sorted by survive the projection. -/
theorem kept {q : Pipeline.SortPath} (hq : q ∈ d.orderPaths s.table s.orderBy) :
    selectedFields d s.table s.selections = [] ∨ q.path ∈ selectedFields d s.table s.selections := by
  rcases (sortKeys_eq_ok p.keys_eq).2 with hnil | hkept
  · exact .inl (p.selectedFields_eq_nil (p.selected_eq_nil hnil))
  · obtain ⟨r, hr, hincl, he⟩ := hkept q hq
    have hs : p.selected ≠ [] := by
      intro hs
      rw [hs] at hr
      exact List.not_mem_nil hr
    right
    rcases (mem_completeProjection hs).1 hr with hr | ⟨rfl, -⟩
    · exact (p.mem_selected _).1 ⟨r, hr, he⟩
    · simp at hincl

/-- Rows picked apart are in the order of the stored ones. -/
theorem compareRows_pick (hu : d.catalog.Undotted) (a b : Document) :
    Pipeline.compareRows (p.keys.map SortKey.path) (pick (selectedFields d s.table s.selections) a)
        (pick (selectedFields d s.table s.selections) b) =
      Pipeline.compareRows (d.orderPaths s.table s.orderBy) a b := by
  rw [(sortKeys_eq_ok p.keys_eq).1]
  exact Pipeline.compareRows_congr (fun q hq => Pipeline.sortValue_pick (mem_orderPaths hu hq) (p.kept hq)) a b

/-- Projecting and then sorting gives the stored rows sorted and then cut down. -/
theorem run_projectSort (hu : d.catalog.Undotted) {rows : List Document}
    (hrows : ∀ row ∈ rows, (Dict.keys row).Nodup) :
    Pipeline.run rows ((p.project ++ p.sort).map (Stage.fill σ)) =
      (Pipeline.sortRows (d.orderPaths s.table s.orderBy) rows).map
        (List.map (pick (selectedFields d s.table s.selections))) := by
  rw [List.map_append, Pipeline.run_append, p.run_project hrows, ok_bind, p.run_sort,
    Pipeline.sortRows_map (p.compareRows_pick hu)]

end SelectParts

/-! ### Counts -/

theorem checkCount_literal {stage : CountStage} {w : Value} (h : checkCount stage (.literal w) = .ok ()) :
    ∃ k, w.integer? = some k ∧ stage.least ≤ k := by
  unfold checkCount at h
  cases w with
  | int32 n | int64 n =>
    by_cases hle : stage.least ≤ n.toInt
    · exact ⟨_, rfl, hle⟩
    · simp [hle] at h
  | _ => simp at h

/-- A checked count is a parameter or a large enough integer. -/
theorem count_cases {stage : CountStage} {e : Expression} {term : Term} (hp : d.Plans t e (.value term))
    (hc : checkCount stage term = .ok ()) (hm : ¬ Expression.Miscounts σ stage.least (some e)) :
    ∃ k, (term.fill σ).integer? = some k ∧ stage.least ≤ k := by
  cases hp with
  | literal hw hs =>
    rw [Term.fill]
    exact checkCount_literal hc
  | parameter n =>
    rw [Term.fill]
    by_contra hno
    exact hm ⟨n, rfl, hno⟩

theorem countOf_eq {e : Expression} {term : Term} (hp : d.Plans t e (.value term)) :
    d.countOf σ (some e) = (term.fill σ).integer? := by
  rw [Dialect.countOf, Option.bind_some, hp.constant?_eq, Option.bind_some]

/-- The rows behind the stage of a clause. -/
def counted (kind : CountStage) (n : Int) (rows : List Document) : List Document :=
  match kind with
  | .skip => rows.drop n.toNat
  | .limit => rows.take n.toNat

theorem run_count {kind : CountStage} {term : Term} {k : Int} (hk : (term.fill σ).integer? = some k)
    (hle : kind.least ≤ k) (rows : List Document) :
    Pipeline.run rows [(kind.stage term).fill σ] = .ok (counted kind k rows) := by
  rw [kind.fill_stage, Pipeline.run_single]
  have hz : (0 : Int) ≤ k := Int.le_trans (by cases kind <;> decide) hle
  have hcount (stage : String) : Pipeline.countArgument stage (term.fill σ) = .ok k.toNat := by
    rw [Pipeline.countArgument_eq, hk]
    exact if_pos hz
  cases kind with
  | skip =>
    rw [Pipeline.runStage_skip, hcount]
    rfl
  | limit =>
    have hone : 1 ≤ k := hle
    rw [Pipeline.runStage_limit, hcount, ok_bind, if_neg (by omega)]
    rfl

theorem countArgument_fault (stage : String) {v : Value} (h : ¬ ∃ k, v.integer? = some k ∧ 0 ≤ k) :
    ∃ fault, Pipeline.countArgument stage v = .error (.store fault) := by
  rw [Pipeline.countArgument_eq]
  cases hk : v.integer? with
  | none => exact ⟨_, rfl⟩
  | some k => exact ⟨_, if_neg fun hle => h ⟨k, hk, hle⟩⟩

theorem run_count_fault {kind : CountStage} {term : Term}
    (h : ¬ ∃ k, (term.fill σ).integer? = some k ∧ kind.least ≤ k) (rows : List Document) :
    ∃ fault, Pipeline.run rows [(kind.stage term).fill σ] = .error (.store fault) := by
  rw [kind.fill_stage, Pipeline.run_single]
  cases kind with
  | skip =>
    obtain ⟨fault, hf⟩ := countArgument_fault CountStage.skip.token h
    exact ⟨fault, by rw [Pipeline.runStage_skip, hf, error_bind]⟩
  | limit =>
    rw [Pipeline.runStage_limit]
    by_cases hk : ∃ k, (term.fill σ).integer? = some k ∧ 0 ≤ k
    · -- the one count that is an integer from zero on and no limit is zero itself
      obtain ⟨k, hk, hle⟩ := hk
      have hz : ¬ 1 ≤ k := fun hone => h ⟨k, hk, hone⟩
      refine ⟨.zeroLimit, ?_⟩
      rw [Pipeline.countArgument_eq, hk]
      simp only [if_pos hle, ok_bind, if_pos (show k.toNat = 0 by omega)]
      rfl
    · obtain ⟨fault, hf⟩ := countArgument_fault CountStage.limit.token hk
      exact ⟨fault, by rw [hf, error_bind]⟩

theorem run_countStage {kind : CountStage} {clause : Option Expression} {stages : List Stage}
    (h : countStage d (some t) kind clause = .ok stages) (hm : ¬ Expression.Miscounts σ kind.least clause)
    (rows : List Document) : Pipeline.run rows (stages.map (Stage.fill σ)) =
      .ok (match d.countOf σ clause with | some n => counted kind n rows | none => rows) := by
  obtain ⟨rfl, rfl⟩ | ⟨e, term, rfl, hp, hc, rfl⟩ := countStage_eq_ok h
  · rfl
  · obtain ⟨k, hk, hle⟩ := count_cases hp hc hm
    rw [List.map_singleton, run_count hk hle, countOf_eq hp, hk]

theorem run_countStage_fault {kind : CountStage} {clause : Option Expression} {stages : List Stage}
    (h : countStage d (some t) kind clause = .ok stages) (hm : Expression.Miscounts σ kind.least clause)
    (rows : List Document) : ∃ fault, Pipeline.run rows (stages.map (Stage.fill σ)) = .error (.store fault) := by
  obtain ⟨n, rfl, hno⟩ := hm
  obtain ⟨he, -⟩ | ⟨e, term, he, hp, -, rfl⟩ := countStage_eq_ok h
  · simp at he
  · obtain rfl := Option.some.inj he
    cases hp with
    | parameter =>
      refine run_count_fault ?_ rows
      rwa [Term.fill]

namespace SelectParts

variable {s : Select} (p : SelectParts d s) {rows : List Document}

section
variable (hp : d.catalog.Plain) (hu : d.catalog.Undotted) (hc : d.codec.Distinct) (hσ : ∀ n, (σ n).Distinct)
  (hrows : ∀ row ∈ rows, (Value.document row).Distinct)
include hp hu hc hσ hrows

/-- The pipeline up to the counts. -/
theorem run_rows : Pipeline.run rows ((p.filter ++ (p.project ++ p.sort)).map (Stage.fill σ)) =
    (Pipeline.sortRows (d.orderPaths s.table s.orderBy) (d.restricted σ s rows)).map
      (List.map (pick (selectedFields d s.table s.selections))) := by
  rw [List.map_append, Pipeline.run_append, run_filterStage hp hc hσ p.filter_eq hrows, ok_bind]
  exact p.run_projectSort hu fun row hr => (hrows row (List.mem_filter.1 hr).1).keys

/-- The whole of it sorts the restricted rows, cuts them down and goes on to the counts. -/
theorem run_stages :
    Pipeline.run rows ((p.filter ++ p.project ++ p.sort ++ p.skip ++ p.limit).map (Stage.fill σ)) = (do
      let sorted ← (Pipeline.sortRows (d.orderPaths s.table s.orderBy) (d.restricted σ s rows)).map
        (List.map (pick (selectedFields d s.table s.selections)))
      let after ← Pipeline.run sorted (p.skip.map (Stage.fill σ))
      Pipeline.run after (p.limit.map (Stage.fill σ))) := by
  rw [List.append_assoc p.filter, List.map_append, Pipeline.run_append, List.map_append, Pipeline.run_append,
    p.run_rows hp hu hc hσ hrows, bind_assoc]

/-- A pipeline whose rows can be sorted comes down to its counts. -/
theorem run_counts (hs : Pipeline.Sortable (d.orderPaths s.table s.orderBy) (d.restricted σ s rows)) :
    Pipeline.run rows ((p.filter ++ p.project ++ p.sort ++ p.skip ++ p.limit).map (Stage.fill σ)) = (do
      let after ← Pipeline.run (d.sorted σ s rows) (p.skip.map (Stage.fill σ))
      Pipeline.run after (p.limit.map (Stage.fill σ))) := by
  rw [p.run_stages hp hu hc hσ hrows, Pipeline.sortRows, if_pos hs]
  rfl

theorem run_pipeline (hs : Pipeline.Sortable (d.orderPaths s.table s.orderBy) (d.restricted σ s rows))
    (hm : ¬ s.Miscounts σ) :
    Pipeline.run rows ((p.filter ++ p.project ++ p.sort ++ p.skip ++ p.limit).map (Stage.fill σ)) =
      .ok (d.answer σ s rows) := by
  rw [Select.Miscounts, not_or] at hm
  rw [p.run_counts hp hu hc hσ hrows hs, run_countStage p.skip_eq hm.1, ok_bind, run_countStage p.limit_eq hm.2]
  cases ho : d.countOf σ s.offset <;> simp [Dialect.answer, ho, counted]

theorem run_fault (hs : Pipeline.Sortable (d.orderPaths s.table s.orderBy) (d.restricted σ s rows))
    (hm : s.Miscounts σ) :
    ∃ fault, Pipeline.run rows ((p.filter ++ p.project ++ p.sort ++ p.skip ++ p.limit).map (Stage.fill σ)) =
      .error (.store fault) := by
  rw [p.run_counts hp hu hc hσ hrows hs]
  by_cases ho : Expression.Miscounts σ 0 s.offset
  · obtain ⟨fault, hf⟩ := run_countStage_fault p.skip_eq ho (d.sorted σ s rows)
    exact ⟨fault, by rw [hf, error_bind]⟩
  · rw [run_countStage p.skip_eq ho, ok_bind]
    exact run_countStage_fault p.limit_eq (hm.resolve_left ho) _

theorem run_disorder (hs : ¬ Pipeline.Sortable (d.orderPaths s.table s.orderBy) (d.restricted σ s rows)) :
    Pipeline.run rows ((p.filter ++ p.project ++ p.sort ++ p.skip ++ p.limit).map (Stage.fill σ)) =
      .error .disorder := by
  rw [p.run_stages hp hu hc hσ hrows, Pipeline.sortRows, if_neg hs]
  rfl

end
end SelectParts
end Direct

theorem Dialect.undotted_people : people.catalog.Undotted := by
  refine Catalog.undotted_ofMappings fun m hm p hp => ?_
  obtain rfl := List.mem_singleton.1 hm
  simp only [List.mem_cons, List.not_mem_nil, or_false] at hp
  rcases hp with rfl | rfl <;> simp

/-- `SELECT age FROM people WHERE age >= 18 ORDER BY age, age DESC OFFSET ?` -/
def Select.adults : Select where
  table := ⟨"people", none⟩
  selections := [⟨.column ⟨none, "age"⟩, none⟩]
  restriction := some (.comparison .greaterOrEqual (.column ⟨none, "age"⟩) (.literal (.int32 18)))
  orderBy := [⟨.column ⟨none, "age"⟩, .ascending⟩, ⟨.column ⟨none, "age"⟩, .descending⟩]
  offset := some (.parameter 0)

/-- `SELECT age FROM people ORDER BY age` -/
def Select.byAge : Select where
  table := ⟨"people", none⟩
  selections := [⟨.column ⟨none, "age"⟩, none⟩]
  orderBy := [⟨.column ⟨none, "age"⟩, .ascending⟩]

/-- Persons of the ages, in this order. -/
def Store.aged (ages : List Value) : Store where
  collections := [("persons", ages.map fun age => [("years", age)])]

end RelDoc
