import RelDoc.Proofs.Rows

/-!
# Which assertions planning can report

Planning checks its own work by assertions: in the exchange, in every checked constructor, for every column. With a
catalog that reports none itself and the exact codec, only a statement that breaks one of five rules is answered by an
assertion (`Statement.Breaks`), and it is the assertion of that rule (`Dialect.commandOf_asserts`).

`AssertsOnly P x` says of a step that the assertions which can come out of it are in `P`. It goes along steps one
after another (`AssertsOnly.bind`), so it is shown for planning by plain recursion, which answers what a pass of visits
answers and has no exchange. The checks of repeated fields do not fail: repetitions were removed or refused before.
-/

namespace RelDoc

open Outcome

/-! ### Rules that a statement can break -/

/-- The predicate `q` is the other one or stands within it. -/
inductive Predicate.Within (q : Predicate) : Predicate → Prop where
  | here : Within q q
  | junction {p : Predicate} {parts : List Predicate} (kind : Junction) (hp : p ∈ parts) (h : Within q p) :
    Within q (.junction kind parts)
  | negated {p : Predicate} (h : Within q p) : Within q (.negated p)
  | grouped {p : Predicate} (h : Within q p) : Within q (.grouped p)

/-- The restriction of a statement that has one. -/
def Statement.restriction? : Statement → Option Predicate
  | insert _ => none
  | update s => s.restriction
  | delete s => s.restriction
  | select s => s.restriction

/-- Two of the columns are stored in the field. -/
def Insert.FillsTwice (catalog : Catalog) (s : Insert) (name : String) : Prop :=
  ∃ (i j : Nat) (a b : Column), i < j ∧ s.columns[i]? = some a ∧ s.columns[j]? = some b ∧
    catalog.fieldOf s.table.name a.name = .ok name ∧ catalog.fieldOf s.table.name b.name = .ok name

/-- The rules of planning that a statement can break, each with the assertion that reports it. -/
inductive Statement.Breaks (catalog : Catalog) : Statement → Assertion → Prop where
  | noRows {s : Insert} (h : s.source = .rows []) : Breaks catalog (.insert s) .emptyInsert
  | rowWidth {s : Insert} {rows : List (List Expression)} {row : List Expression} (h : s.source = .rows rows)
    (hr : row ∈ rows) (hw : row.length ≠ s.columns.length) :
    Breaks catalog (.insert s) (.rowWidth row.length s.columns.length)
  | repeatedField {s : Insert} {name : String} (h : s.FillsTwice catalog name) :
    Breaks catalog (.insert s) (.repeatedField name)
  | noAssignments {s : Update} (h : s.assignments = []) : Breaks catalog (.update s) (.noFields .set)
  | emptyJunction {s : Statement} {p : Predicate} (kind : Junction) (h : s.restriction? = some p)
    (hp : Predicate.Within (.junction kind []) p) : Breaks catalog s (.emptyCombination kind.combinator)

/-- Assertions that no statement can be blamed for. -/
def Assertion.IsInternal : Assertion → Prop
  | exchange _ | writer _ | columnOutsideStatement _ | columnIsValue | nullLiteral | containerLiteral
  | fieldNamedTwice _ _ | noFields .project | noFields .sort | emptyCombination .nor => True
  | rowWidth _ _ | repeatedField _ | emptyInsert | noFields .set | emptyCombination .and | emptyCombination .or => False

theorem Statement.Breaks.not_internal {catalog : Catalog} {s : Statement} {a : Assertion} (h : s.Breaks catalog a) :
    ¬ a.IsInternal := by
  cases h with
  | noRows | rowWidth | repeatedField | noAssignments => exact id
  | emptyJunction kind => cases kind <;> exact id

/-- The lookups of the catalog fail with errors of their own; an assertion is planning's to report. -/
structure Catalog.NeverAsserts (c : Catalog) : Prop where
  collectionOf : ∀ table a, c.collectionOf table ≠ .error (.assertion a)
  fieldOf : ∀ table column a, c.fieldOf table column ≠ .error (.assertion a)
  isIdentifier : ∀ table column a, c.isIdentifier table column ≠ .error (.assertion a)

/-! ### Steps that assert -/

/-- The assertions that can come out of the step are in `P`. -/
def Outcome.AssertsOnly {α : Type} (P : Assertion → Prop) (x : Except Error α) : Prop :=
  ∀ a, x = .error (.assertion a) → P a

namespace Outcome.AssertsOnly

variable {α β : Type} {P Q : Assertion → Prop}

theorem ok (a : α) : AssertsOnly P (.ok a) := fun _ h => nomatch h

theorem unsupported (u : Unsupported) : AssertsOnly P (.error (.unsupported u) : Except Error α) := fun _ h => nomatch h

theorem of_ne {x : Except Error α} (h : ∀ a, x ≠ .error (.assertion a)) : AssertsOnly P x :=
  fun a ha => absurd ha (h a)

theorem mono {x : Except Error α} (h : AssertsOnly P x) (hPQ : ∀ a, P a → Q a) : AssertsOnly Q x :=
  fun a ha => hPQ a (h a ha)

/-- The second step is looked at only for what the first one can give. -/
theorem bind {x : Except Error α} {f : α → Except Error β} (hx : AssertsOnly P x)
    (hf : ∀ a, x = .ok a → AssertsOnly P (f a)) : AssertsOnly P (x >>= f) := by
  intro a h
  cases x with
  | error e => exact hx a (congrArg Except.error (Except.error.inj h))
  | ok b => exact hf b rfl a h

theorem mapM {f : α → Except Error β} {as : List α} (h : ∀ a ∈ as, AssertsOnly P (f a)) :
    AssertsOnly P (as.mapM f) := by
  induction as with
  | nil => exact ok []
  | cons a rest ih =>
    rw [List.mapM_cons]
    have hrest := ih fun b hb => h b (List.mem_cons_of_mem a hb)
    exact (h a (List.mem_cons_self ..)).bind fun b _ => hrest.bind fun bs _ => ok (b :: bs)

end Outcome.AssertsOnly

open Outcome.AssertsOnly

namespace Catalog

theorem neverAsserts_ofMappings (mappings : List TableMapping) : (ofMappings mappings).NeverAsserts := by
  have htable : ∀ {P table}, AssertsOnly P (mappingOf (index mappings) table) := by
    intro P table a h
    unfold mappingOf at h
    split at h <;> cases h
  have hnever : ∀ {α : Type} {x : Except Error α}, AssertsOnly (fun _ => False) x → ∀ a, x ≠ .error (.assertion a) :=
    fun h a ha => h a ha
  refine ⟨fun table => hnever ?_, fun table column => hnever ?_, fun table column => hnever ?_⟩
  · exact htable.bind fun m _ => ok m.collection
  · refine htable.bind fun m _ => ?_
    unfold TableMapping.fieldOf
    split
    · exact ok idField
    · split
      · exact ok _
      · exact of_ne fun a h => by cases h
  · exact htable.bind fun m _ => ok _

end Catalog

/-! ### Checks of planning -/

/-- A name that occurs again is one of those seen before, or occurs at two places. -/
theorem firstRepeated_eq_some {seen names : List String} {k : String} (h : firstRepeated seen names = some k) :
    (k ∈ seen ∧ k ∈ names) ∨ ∃ i j : Nat, i < j ∧ names[i]? = some k ∧ names[j]? = some k := by
  induction names generalizing seen with
  | nil => cases h
  | cons x rest ih =>
    unfold firstRepeated at h
    split at h
    · next hx =>
      obtain rfl := Option.some.inj h
      exact .inl ⟨hx, List.mem_cons_self ..⟩
    · rcases ih h with ⟨hseen, hrest⟩ | ⟨i, j, hij, hi, hj⟩
      · rcases List.mem_cons.1 hseen with rfl | hseen
        · obtain ⟨j, hj⟩ := List.mem_iff_getElem?.1 hrest
          exact .inr ⟨0, j + 1, j.succ_pos, rfl, hj⟩
        · exact .inl ⟨hseen, List.mem_cons_of_mem x hrest⟩
      · exact .inr ⟨i + 1, j + 1, Nat.succ_lt_succ hij, hi, hj⟩

namespace Direct

variable {d : Dialect} {t : Table} {P : Assertion → Prop}

theorem assertsOnly_combine {operator : Combinator} {fs : List Filter}
    (h : fs = [] → P (.emptyCombination operator)) : AssertsOnly P (Filter.combine operator fs) := by
  intro a ha
  unfold Filter.combine at ha
  split at ha
  · next he =>
    obtain rfl := Error.assertion.inj (Except.error.inj ha)
    exact h (List.isEmpty_iff.1 he)
  · cases ha

theorem assertsOnly_checkCount (stage : CountStage) (count : Term) : AssertsOnly P (checkCount stage count) := by
  unfold checkCount
  split
  · exact ok ()
  · exact unsupported _
  · exact iteInduction (fun _ => ok ()) fun _ => unsupported _

theorem assertsOnly_toQuery (c : Comparison) : AssertsOnly P c.toQuery := by
  cases c <;> first | exact ok _ | exact unsupported _

theorem assertsOnly_addSortKey (fields : List Projection) (found : List SortKey) (k : SortKey) :
    AssertsOnly P (addSortKey fields found k) := by
  unfold addSortKey
  split
  · exact unsupported _
  · split <;> exact ok _

theorem assertsOnly_checkClauses (s : Select) : AssertsOnly P s.checkClauses := by
  unfold Select.checkClauses
  split
  · exact unsupported _
  · split
    · exact unsupported _
    · exact ok ()

/-- Sort keys are added for new fields only. -/
theorem nodup_sortKeys {fields : List Projection} {found keys : List SortKey} {ss : List SortItem}
    (hs : sortKeys d (some t) fields found ss = .ok keys) (h : (found.map SortKey.field).Nodup) :
    (keys.map SortKey.field).Nodup := by
  induction ss generalizing found with
  | nil =>
    obtain rfl := Except.ok.inj hs
    exact h
  | cons s rest ih =>
    obtain ⟨k, -, hs⟩ := bind_eq_ok.1 hs
    obtain ⟨found', hadd, hs⟩ := bind_eq_ok.1 hs
    refine ih hs ?_
    unfold addSortKey at hadd
    split at hadd
    · cases hadd
    · split at hadd
      · obtain rfl := Except.ok.inj hadd
        exact h
      · next hno =>
        obtain rfl := Except.ok.inj hadd
        exact nodup_concat h (by simpa using hno)

/-- Sort keys that name no field twice make a stage. -/
theorem assertsOnly_sortStage {keys : List SortKey} (h : (keys.map SortKey.field).Nodup) :
    AssertsOnly P (sortStage keys) := by
  unfold sortStage
  split
  · exact ok []
  · next hne =>
    have htexts : ((keys.map SortKey.field).map FieldPath.text).Nodup :=
      h.map fun p q he => congrArg FieldPath.mk he
    have hc : checkFields .sort (keys.map SortKey.field) = .ok () := checkFields_eq_ok htexts (by simpa using hne)
    rw [Stage.ofSortKeys, hc]
    exact ok _

theorem filters_eq_nil {ps : List Predicate} (h : filters d (some t) ps = .ok []) : ps = [] := by
  cases ps with
  | nil => rfl
  | cons p rest =>
    rw [filters] at h
    obtain ⟨f, -, h⟩ := bind_eq_ok.1 h
    obtain ⟨more, -, h⟩ := bind_eq_ok.1 h
    cases h

/-- A field of a row is that of the column in the same place. -/
theorem column_of_field {columns : List Column} {fields : List FieldPath}
    (h : List.Forall₂ (fun c path => fieldOf d (some t) c = .ok path) columns fields) {i : Nat} {name : String}
    (hi : (fields.map FieldPath.text)[i]? = some name) :
    ∃ c : Column, columns[i]? = some c ∧ d.catalog.fieldOf t.name c.name = .ok name := by
  rw [List.getElem?_map, Option.map_eq_some_iff] at hi
  obtain ⟨path, hpath, rfl⟩ := hi
  obtain ⟨hlt, hget⟩ := List.getElem?_eq_some_iff.1 hpath
  have hcolumn := h.get (h.length_eq ▸ hlt) hlt
  rw [List.get_eq_getElem, List.get_eq_getElem, hget] at hcolumn
  exact ⟨_, List.getElem?_eq_getElem (h.length_eq ▸ hlt), fieldOf_eq_ok hcolumn⟩

theorem assertsOnly_checkUpdates (updates : List FieldUpdate) : AssertsOnly P (checkUpdates updates) := by
  unfold checkUpdates
  split
  · exact unsupported _
  · exact ok ()

/-- A field that is assigned twice is refused as unsupported, so the constructor finds none. -/
theorem assertsOnly_ofUpdates {collection : String} {f : Filter} {updates : List FieldUpdate}
    (hdistinct : checkUpdates updates = .ok ()) (hempty : updates = [] → P (.noFields .set)) :
    AssertsOnly P (Command.ofUpdates collection f updates) := by
  have hset : firstRepeated [] ((updates.map FieldUpdate.field).map FieldPath.text) = none := by
    rw [List.map_map]
    unfold checkUpdates at hdistinct
    split at hdistinct
    · cases hdistinct
    · next hnone => exact hnone
  refine AssertsOnly.bind (fun a ha => ?_) fun _ _ => ok _
  unfold checkFields at ha
  rw [hset] at ha
  dsimp only at ha
  split at ha
  · next hnil =>
    obtain rfl := Error.assertion.inj (Except.error.inj ha)
    exact hempty (List.map_eq_nil_iff.1 (List.isEmpty_iff.1 hnil))
  · cases ha

/-- The assertion of a junction without members within the predicate. -/
def Hollow (p : Predicate) (a : Assertion) : Prop :=
  ∃ kind : Junction, a = .emptyCombination kind.combinator ∧ Predicate.Within (.junction kind []) p

/-- A hollow restriction breaks a rule, whatever statement it belongs to. -/
theorem Hollow.breaks (s : Statement) {catalog : Catalog} {a : Assertion}
    (h : ∃ p, s.restriction? = some p ∧ Hollow p a) : s.Breaks catalog a := by
  obtain ⟨p, hp, kind, rfl, hin⟩ := h
  exact .emptyJunction kind hp hin

/-! ### Expressions -/

section
variable (hcat : d.catalog.NeverAsserts) (hcodec : d.codec = .exact)
include hcat

theorem assertsOnly_columnOperand (c : Column) : AssertsOnly P (d.columnOperand (some t) c) := by
  have hfield : AssertsOnly P (do return Operand.field ⟨← d.catalog.fieldOf t.name c.name⟩) :=
    (of_ne (hcat.fieldOf t.name c.name)).bind fun field _ => ok _
  unfold Dialect.columnOperand
  cases c.qualifier with
  | none => exact hfield
  | some q =>
    dsimp only
    split
    · exact hfield
    · exact unsupported _

/-- A column stands for a field, never for a value. -/
theorem assertsOnly_fieldOf (c : Column) : AssertsOnly P (fieldOf d (some t) c) := by
  refine (assertsOnly_columnOperand hcat c).bind fun o ho => ?_
  obtain ⟨field, -, rfl⟩ := Dialect.columnOperand_eq_ok ho
  exact ok _

include hcodec

theorem assertsOnly_operand (e : Expression) : AssertsOnly P (d.operand (some t) e) := by
  cases e with
  | column c => exact assertsOnly_columnOperand hcat c
  | literal v =>
    -- the exact codec encodes every scalar as a literal
    have hv : d.operand (some t) (.literal v) = .ok (.value (.literal (Codec.toWire v))) := by
      rw [Dialect.operand, hcodec]
      cases v <;> rfl
    rw [hv]
    exact ok _
  | parameter position => exact ok _
  | null | function | arithmetic => exact unsupported _

theorem assertsOnly_valueOf (place : ValuePlace) (e : Expression) : AssertsOnly P (valueOf d (some t) place e) := by
  refine (assertsOnly_operand hcat hcodec e).bind fun o _ => ?_
  cases o with
  | field path => exact unsupported _
  | value term => exact ok term

theorem assertsOnly_columnFieldOf (place : ColumnPlace) (e : Expression) :
    AssertsOnly P (columnFieldOf d (some t) place e) := by
  refine (assertsOnly_operand hcat hcodec e).bind fun o _ => ?_
  cases o with
  | field path => exact ok path
  | value term => exact unsupported _

theorem assertsOnly_comparison (c : Comparison) (left right : Expression) :
    AssertsOnly P (comparison d (some t) c left right) := by
  refine (assertsOnly_toQuery c).bind fun operator _ => ?_
  refine (assertsOnly_operand hcat hcodec left).bind fun l _ => ?_
  refine (assertsOnly_operand hcat hcodec right).bind fun r _ => ?_
  unfold comparisonFilter
  split
  · exact ok _
  · exact (assertsOnly_toQuery c.flip).bind fun _ _ => ok _
  · exact unsupported _
  · exact unsupported _

end

/-! ### Predicates -/

mutual
theorem assertsOnly_filter (hcat : d.catalog.NeverAsserts) (hcodec : d.codec = .exact) :
    ∀ p : Predicate, AssertsOnly (Hollow p) (filter d (some t) p)
  | .comparison c left right => by
    rw [filter]
    exact assertsOnly_comparison hcat hcodec c left right
  | .junction kind parts => by
    rw [filter]
    have hparts : AssertsOnly (Hollow (.junction kind parts)) (filters d (some t) parts) :=
      (assertsOnly_filters hcat hcodec parts).mono fun a ⟨p, hp, empty, ha, hin⟩ => ⟨empty, ha, .junction kind hp hin⟩
    refine hparts.bind fun fs hfs => assertsOnly_combine fun hnil => ?_
    subst hnil
    obtain rfl := filters_eq_nil hfs
    exact ⟨kind, rfl, .here⟩
  | .negated p => by
    rw [filter]
    have hp : AssertsOnly (Hollow (.negated p)) (filter d (some t) p) :=
      (assertsOnly_filter hcat hcodec p).mono fun a ⟨empty, ha, hin⟩ => ⟨empty, ha, .negated hin⟩
    exact hp.bind fun f _ => assertsOnly_combine fun hnil => nomatch hnil
  | .grouped p => by
    rw [filter]
    exact (assertsOnly_filter hcat hcodec p).mono fun a ⟨empty, ha, hin⟩ => ⟨empty, ha, .grouped hin⟩
  | .nullness _ n => by
    rw [filter]
    exact unsupported _
  | .membership _ _ n => by
    rw [filter]
    exact unsupported _
  | .pattern _ _ n => by
    rw [filter]
    exact unsupported _
  | .between _ _ _ n => by
    rw [filter]
    exact unsupported _

theorem assertsOnly_filters (hcat : d.catalog.NeverAsserts) (hcodec : d.codec = .exact) :
    ∀ ps : List Predicate, AssertsOnly (fun a => ∃ p ∈ ps, Hollow p a) (filters d (some t) ps)
  | [] => by
    rw [filters]
    exact ok []
  | p :: rest => by
    rw [filters]
    have hp : AssertsOnly (fun a => ∃ q ∈ p :: rest, Hollow q a) (filter d (some t) p) :=
      (assertsOnly_filter hcat hcodec p).mono fun a ha => ⟨p, List.mem_cons_self .., ha⟩
    have hrest : AssertsOnly (fun a => ∃ q ∈ p :: rest, Hollow q a) (filters d (some t) rest) :=
      (assertsOnly_filters hcat hcodec rest).mono fun a ⟨q, hq, ha⟩ => ⟨q, List.mem_cons_of_mem p hq, ha⟩
    exact hp.bind fun f _ => hrest.bind fun fs _ => ok (f :: fs)
end

/-! ### Clauses -/

section
variable (hcat : d.catalog.NeverAsserts) (hcodec : d.codec = .exact)
include hcat hcodec

theorem assertsOnly_restriction (r : Option Predicate) :
    AssertsOnly (fun a => ∃ p, r = some p ∧ Hollow p a) (restriction d (some t) r) := by
  cases r with
  | none => exact ok _
  | some p => exact (assertsOnly_filter hcat hcodec p).mono fun a ha => ⟨p, rfl, ha⟩

theorem assertsOnly_filterStage (r : Option Predicate) :
    AssertsOnly (fun a => ∃ p, r = some p ∧ Hollow p a) (filterStage d (some t) r) := by
  cases r with
  | none => exact ok _
  | some p => exact (assertsOnly_restriction hcat hcodec (some p)).bind fun f _ => ok _

theorem assertsOnly_update (a : Assignment) : AssertsOnly P (update d (some t) a) := by
  refine (assertsOnly_fieldOf hcat a.column).bind fun field _ => ?_
  refine (of_ne (hcat.isIdentifier t.name a.column.name)).bind fun identifier _ => ?_
  split
  · exact unsupported _
  · exact (assertsOnly_valueOf hcat hcodec .assignment a.value).bind fun value _ => ok _

theorem assertsOnly_row (fields : List FieldPath) (es : List Expression) :
    AssertsOnly P (row d (some t) fields es) := by
  induction fields generalizing es with
  | nil => exact ok []
  | cons field rest ih =>
    cases es with
    | nil => exact ok []
    | cons e es =>
      exact (assertsOnly_valueOf hcat hcodec .insert e).bind fun term _ => (ih es).bind fun more _ => ok _

/-- A row is too short or too long, or two of its fields have one name. -/
theorem assertsOnly_document {fields : List FieldPath} {es : List Expression}
    (hwidth : es.length ≠ fields.length → P (.rowWidth es.length fields.length))
    (htwice : ∀ (name : String) (i j : Nat), i < j → (fields.map FieldPath.text)[i]? = some name →
      (fields.map FieldPath.text)[j]? = some name → P (.repeatedField name)) :
    AssertsOnly P (document d (some t) fields es) := by
  unfold document
  split
  · next hw =>
    intro a ha
    obtain rfl := Error.assertion.inj (Except.error.inj ha)
    exact hwidth hw
  · next hl =>
    refine (assertsOnly_row hcat hcodec fields es).bind fun named hn a ha => ?_
    obtain ⟨terms, hterms, rfl⟩ := row_eq_ok hn (not_not.1 hl)
    have hnames : ((fields.map FieldPath.text).zip terms).map Prod.fst = fields.map FieldPath.text := by
      refine List.map_fst_zip ?_
      rw [List.length_map, ← not_not.1 hl, hterms.length_eq]
    unfold Template.ofFields at ha
    rw [hnames] at ha
    split at ha
    · next name hr =>
      obtain rfl := Error.assertion.inj (Except.error.inj ha)
      obtain ⟨hseen, -⟩ | ⟨i, j, hij, hi, hj⟩ := firstRepeated_eq_some hr
      · exact absurd hseen List.not_mem_nil
      · exact htwice name i j hij hi hj
    · cases ha

theorem assertsOnly_projections (found : List Projection) (ss : List Selection) :
    AssertsOnly P (projections d (some t) found ss) := by
  induction ss generalizing found with
  | nil => exact ok found
  | cons s rest ih =>
    have hs : AssertsOnly P (projection d (some t) s) :=
      (assertsOnly_columnFieldOf hcat hcodec .selection s.expression).bind fun field _ => ok _
    exact hs.bind fun p _ => ih (addProjection found p)

theorem assertsOnly_sortKeys (fields : List Projection) (found : List SortKey) (ss : List SortItem) :
    AssertsOnly P (sortKeys d (some t) fields found ss) := by
  induction ss generalizing found with
  | nil => exact ok found
  | cons s rest ih =>
    have hs : AssertsOnly P (sortKey d (some t) s) :=
      (assertsOnly_columnFieldOf hcat hcodec .orderBy s.expression).bind fun field _ => ok _
    exact hs.bind fun k _ => (assertsOnly_addSortKey fields found k).bind fun found' _ => ih found'

theorem assertsOnly_countStage (kind : CountStage) (clause : Option Expression) :
    AssertsOnly P (countStage d (some t) kind clause) := by
  cases clause with
  | none => exact ok []
  | some e =>
    refine (assertsOnly_valueOf hcat hcodec kind.place e).bind fun count _ => ?_
    have hstage : AssertsOnly P (Stage.ofCount kind count) := (assertsOnly_checkCount kind count).bind fun _ _ => ok _
    exact hstage.bind fun stage _ => ok _

/-! ### Statements -/

theorem assertsOnly_insert (s : Insert) : AssertsOnly ((Statement.insert s).Breaks d.catalog) (insert d s) := by
  unfold insert
  split
  · exact unsupported _
  · next rows hrows =>
    refine (of_ne (hcat.collectionOf s.table.name)).bind fun collection _ => ?_
    refine (mapM fun c _ => assertsOnly_fieldOf hcat c).bind fun fields hfields => ?_
    have hcolumns := mapM_eq_ok.1 hfields
    have hlength : s.columns.length = fields.length := hcolumns.length_eq
    have hdocuments : AssertsOnly ((Statement.insert s).Breaks d.catalog)
        (rows.mapM (document d (some s.table) fields)) := by
      refine mapM fun row hrow => assertsOnly_document hcat hcodec (fun hw => ?_) fun name i j hij hi hj => ?_
      · rw [← hlength] at hw ⊢
        exact .rowWidth hrows hrow hw
      · obtain ⟨a, ha, hfa⟩ := column_of_field hcolumns hi
        obtain ⟨b, hb, hfb⟩ := column_of_field hcolumns hj
        exact .repeatedField ⟨i, j, a, b, hij, ha, hb, hfa, hfb⟩
    refine hdocuments.bind fun documents hd a ha => ?_
    unfold Command.ofDocuments at ha
    split at ha
    · next hempty =>
      obtain rfl := Error.assertion.inj (Except.error.inj ha)
      obtain rfl := List.isEmpty_iff.1 hempty
      obtain rfl := List.forall₂_nil_right_iff.1 (mapM_eq_ok.1 hd)
      exact .noRows hrows
    · cases ha

theorem assertsOnly_updateCommand (s : Update) :
    AssertsOnly ((Statement.update s).Breaks d.catalog) (updateCommand d s) := by
  refine (of_ne (hcat.collectionOf s.table.name)).bind fun collection _ => ?_
  have hwhere : AssertsOnly ((Statement.update s).Breaks d.catalog) (restriction d (some s.table) s.restriction) :=
    (assertsOnly_restriction hcat hcodec s.restriction).mono fun _ => Hollow.breaks (.update s)
  refine hwhere.bind fun f _ => ?_
  refine (mapM fun a _ => assertsOnly_update hcat hcodec a).bind fun updates hupdates => ?_
  refine (assertsOnly_checkUpdates updates).bind fun _ hdistinct => assertsOnly_ofUpdates hdistinct fun hnil => ?_
  subst hnil
  exact .noAssignments (List.forall₂_nil_right_iff.1 (mapM_eq_ok.1 hupdates))

theorem assertsOnly_delete (s : Delete) : AssertsOnly ((Statement.delete s).Breaks d.catalog) (delete d s) := by
  refine (of_ne (hcat.collectionOf s.table.name)).bind fun collection _ => ?_
  have hwhere : AssertsOnly ((Statement.delete s).Breaks d.catalog) (restriction d (some s.table) s.restriction) :=
    (assertsOnly_restriction hcat hcodec s.restriction).mono fun _ => Hollow.breaks (.delete s)
  exact hwhere.bind fun f _ => ok _

theorem assertsOnly_select (s : Select) : AssertsOnly ((Statement.select s).Breaks d.catalog) (select d s) := by
  unfold select
  split
  · exact unsupported _
  · refine (assertsOnly_checkClauses s).bind fun _ _ => ?_
    refine (of_ne (hcat.collectionOf s.table.name)).bind fun collection _ => ?_
    have hwhere : AssertsOnly ((Statement.select s).Breaks d.catalog) (filterStage d (some s.table) s.restriction) :=
      (assertsOnly_filterStage hcat hcodec s.restriction).mono fun _ => Hollow.breaks (.select s)
    refine hwhere.bind fun f _ => ?_
    refine (assertsOnly_projections hcat hcodec [] s.selections).bind fun selected hselected => ?_
    refine (assertsOnly_sortKeys hcat hcodec _ [] s.orderBy).bind fun keys hkeys => ?_
    -- neither stage names a field twice
    obtain ⟨project, hproject⟩ := projectStage_completed (nodup_projections hselected List.nodup_nil)
    rw [hproject]
    refine (ok project).bind fun _ _ => ?_
    refine (assertsOnly_sortStage (nodup_sortKeys hkeys List.nodup_nil)).bind fun sort _ => ?_
    refine (assertsOnly_countStage hcat hcodec .skip s.offset).bind fun skip _ => ?_
    exact (assertsOnly_countStage hcat hcodec .limit s.fetch).bind fun limit _ => ok _

end
end Direct

namespace Dialect

/-- An assertion that is reported for a statement is that of a rule which the statement breaks, so never one about
the planning itself. The catalog is the caller's, and it is taken to report no assertion of its own: what it cannot
resolve it reports as a fault of the metadata (`Catalog.NeverAsserts`). -/
theorem commandOf_asserts {d : Dialect} (hcat : d.catalog.NeverAsserts) (hcodec : d.codec = .exact) {s : Statement}
    {a : Assertion} (h : d.commandOf s = .error (.assertion a)) : s.Breaks d.catalog a ∧ ¬ a.IsInternal := by
  have hbreaks : s.Breaks d.catalog a := by
    rw [d.commandOf_eq] at h
    cases s with
    | insert s => exact Direct.assertsOnly_insert hcat hcodec s a h
    | update s => exact Direct.assertsOnly_updateCommand hcat hcodec s a h
    | delete s => exact Direct.assertsOnly_delete hcat hcodec s a h
    | select s => exact Direct.assertsOnly_select hcat hcodec s a h
  exact ⟨hbreaks, hbreaks.not_internal⟩

/-- `INSERT INTO people p (p.age, id, age) VALUES (?0, ?1, 4)` -/
def twiceAged : Statement :=
  .insert
    { table := ⟨"people", some "p"⟩
      columns := [⟨some "p", "age"⟩, ⟨none, "id"⟩, ⟨none, "age"⟩]
      source := .rows [[.parameter 0, .parameter 1, .literal (.int32 4)]] }

/-- `UPDATE people` without an assignment. -/
def unassigned : Statement := .update { table := ⟨"people", none⟩, assignments := [] }

/-- `DELETE FROM people WHERE NOT (id = ?0 AND ())`, with a disjunction of nothing at the end. -/
def hollow : Statement :=
  .delete
    { table := ⟨"people", none⟩
      restriction := some (.negated (.grouped (.junction .all
        [.comparison .equal (.column ⟨none, "id"⟩) (.parameter 0), .grouped (.junction .any [])]))) }

theorem commandOf_asserts_people :
    (people.commandOf twiceAged = .error (.assertion (.repeatedField "years")) ∧
      twiceAged.Breaks people.catalog (.repeatedField "years")) ∧
    (people.commandOf unassigned = .error (.assertion (.noFields .set)) ∧
      unassigned.Breaks people.catalog (.noFields .set)) ∧
    (people.commandOf hollow = .error (.assertion (.emptyCombination .or)) ∧
      hollow.Breaks people.catalog (.emptyCombination .or)) := by
  have hcat : people.catalog.NeverAsserts := Catalog.neverAsserts_ofMappings _
  have htwice : people.commandOf twiceAged = .error (.assertion (.repeatedField "years")) := by
    rw [commandOf_eq]
    rfl
  have hnone : people.commandOf unassigned = .error (.assertion (.noFields .set)) := by
    rw [commandOf_eq]
    rfl
  have hhollow : people.commandOf hollow = .error (.assertion (.emptyCombination .or)) := by
    rw [commandOf_eq]
    rfl
  exact ⟨⟨htwice, (commandOf_asserts hcat rfl htwice).1⟩, ⟨hnone, (commandOf_asserts hcat rfl hnone).1⟩,
    hhollow, (commandOf_asserts hcat rfl hhollow).1⟩

end Dialect
end RelDoc
