import RelDoc.Proofs.Comparing
import RelDoc.Proofs.Mutation
import RelDoc.Proofs.Rows

/-!
# Where columns live

An INSERT stores the value of a column under the column's field, a name of the new row, while a restriction
reads the field as a path and as an entry of a filter. The two agree for plain names alone. After an INSERT
a SELECT or DELETE restricted by `c = v` meets the row that has `v` for the column `c`, whatever the type of
`v`, exactly if the field of `c` is plain (`Session.meets_inserted_iff`). A dotted field leads into a document
that the row does not have, and one that begins with a dollar sign makes an ill-formed filter, although
a valid configuration may have both (`Session.misses_inserted`).
-/

namespace RelDoc

open Outcome

/-! ### Values and themselves -/

namespace Double

theorem equal_self (d : Double) : d.equal d = !d.isNaN := by
  cases h : d.isNaN <;> simp [equal, compare?, position?, h]

end Double

/-- A double that is no number. -/
def Scalar.isNaN : Scalar → Bool
  | double d => d.isNaN
  | _ => false

namespace Codec

/-- A wire value equals itself, as filters compare, unless it is no number. -/
theorem equals_toWire (v : Scalar) : (toWire v).equals (toWire v) = !v.isNaN := by
  cases v with
  | int32 n =>
    have hn := Value.isNaN_of_number (a := .int32 n) rfl
    simp [toWire, Value.equals, Value.number?, Scalar.isNaN, Double.equal_self, hn, Value.isNaN]
  | int64 n =>
    have hn := Value.isNaN_of_number (a := .int64 n) rfl
    simp [toWire, Value.equals, Value.number?, Scalar.isNaN, Double.equal_self, hn, Value.isNaN]
  | double d => simp [toWire, Value.equals, Value.number?, Scalar.isNaN, Double.equal_self]
  | _ => simp [toWire, Value.equals, Scalar.isNaN]

theorem document?_toWire (v : Scalar) : (toWire v).document? = none := by cases v <;> rfl

end Codec

/-! ### Paths -/

/-- The path is a name that a filter takes for the field it names. -/
def FieldPath.IsPlain (path : FieldPath) : Prop := isOperatorName path.text = false ∧ '.' ∉ path.text.toList

theorem splitAtDots_ne_nil (cs : List Char) : splitAtDots cs ≠ [] := by
  cases cs with
  | nil => simp [splitAtDots]
  | cons c rest =>
    rw [splitAtDots]
    split
    · simp
    · split <;> simp

theorem splitAtDots_of_mem {cs : List Char} (h : '.' ∈ cs) :
    ∃ first second more, splitAtDots cs = first :: second :: more := by
  induction cs with
  | nil => simp at h
  | cons c rest ih =>
    rw [splitAtDots]
    split
    · obtain ⟨second, more, hs⟩ := List.exists_cons_of_ne_nil (splitAtDots_ne_nil rest)
      exact ⟨[], second, more, by rw [hs]⟩
    · next hc =>
      obtain ⟨first, second, more, hs⟩ := ih ((List.mem_cons.1 h).resolve_left (Ne.symm hc))
      exact ⟨c :: first, second, more, by rw [hs]⟩

namespace Document

variable {row : Document}

/-- A dotted path leads nowhere in a row without documents, even if the row has its text as a name. -/
theorem lookup_of_dotted {name : String} (h : '.' ∈ name.toList) (hrow : ∀ p ∈ row, p.2.document? = none) :
    row.lookup name = none := by
  obtain ⟨first, second, more, hs⟩ := splitAtDots_of_mem h
  rw [lookup, pathNames, hs, List.map_cons, List.map_cons, follow]
  · split
    · next inner hi =>
      have hm := hrow _ (Dict.mem_of_get?_eq_some hi)
      simp [Value.document?] at hm
    · rfl
  · simp

/-- A comparison under the name of an operator is refused, and for every row alike. -/
theorem satisfies_operatorName {name : String} (h : isOperatorName name = true) (inner : Document) :
    ∃ fault, ∀ row : Document, row.satisfies [(name, .document inner)] = .error (.store fault) := by
  cases ht : Combinator.ofToken? name with
  | some combinator =>
    refine ⟨.clauses name, fun row => ?_⟩
    rw [satisfies, satisfiesEntry, ht]
    rfl
  | none =>
    refine ⟨.unknownOperator name, fun row => ?_⟩
    rw [satisfies, satisfiesEntry, ht]
    simp only [h, if_true]
    rfl

end Document

/-! ### Restrictions by a scalar -/

/-- The ways to write a scalar into a statement: as a literal, or as its only parameter. -/
inductive Expression.Gives (v : Scalar) : Expression → List Scalar → Prop
  | literal : Gives v (.literal v) []
  | parameter : Gives v (.parameter 0) [v]

/-- `c = e` -/
def Predicate.equals (c : Column) (e : Expression) : Predicate := .comparison .equal (.column c) e

namespace Direct

variable {d : Dialect} {t : Table} {c : Column} {field : String} {v : Scalar} {e : Expression}
  {parameters : List Scalar}

theorem operand_gives (hc : d.codec = .exact) (he : e.Gives v parameters) : ∃ term,
    d.operand (some t) e = .ok (.value term) ∧
      term.fill (valuesAt (parameters.map Codec.toWire)) = Codec.toWire v := by
  cases he with
  | literal =>
    refine ⟨.literal (Codec.toWire v), ?_, by rw [Term.fill]⟩
    have hv : Term.ofValue (Codec.toWire v) = .ok (.literal (Codec.toWire v)) := by cases v <;> rfl
    rw [Dialect.operand, hc, Codec.exact, ok_bind, hv]
    rfl
  | parameter => exact ⟨.placeholder 0, rfl, by rw [Term.fill]; rfl⟩

/-- `c = v` is planned as a comparison of the field of `c` with the value of `v`. -/
theorem filter_equals (hc : d.codec = .exact) (hf : fieldOf d (some t) c = .ok ⟨field⟩) (he : e.Gives v parameters) :
    ∃ f, filter d (some t) (.equals c e) = .ok f ∧ f.fill (valuesAt (parameters.map Codec.toWire)) =
      [(field, .document [(QueryOperator.eq.token, Codec.toWire v)])] := by
  obtain ⟨term, hterm, hfill⟩ := operand_gives (t := t) hc he
  have hcolumn : d.operand (some t) (.column c) = .ok (.field ⟨field⟩) := by
    obtain ⟨o, ho, hfield⟩ := bind_eq_ok.1 hf
    cases o with
    | value term => simp [Operand.columnField] at hfield
    | field path =>
      obtain rfl := Except.ok.inj hfield
      exact ho
  refine ⟨.comparison ⟨field⟩ .eq term, ?_, by rw [Filter.fill, hfill]⟩
  rw [Predicate.equals, filter, comparison, hcolumn, hterm]
  rfl

theorem mem_parameters_equals (he : e.Gives v parameters) (n : Nat) :
    n ∈ (Predicate.equals c e).parameters ↔ n < (parameters.map Codec.toWire).length := by
  cases he <;> simp [Predicate.equals, Predicate.parameters, Expression.parameters]

end Direct

/-! ### Rows that a restriction meets -/

namespace Document

/-- Does the row satisfy the filter? A row that the filter fails on does not. -/
def isHit (filter row : Document) : Bool :=
  match row.satisfies filter with
  | .ok hit => hit
  | .error _ => false

theorem isHit_eq {filter row : Document} {hit : Bool} (h : row.satisfies filter = .ok hit) :
    isHit filter row = hit := by
  rw [isHit, h]

/-- The filter fails on none of the rows. -/
def Decides (filter : Document) (rows : List Document) : Prop :=
  ∀ row ∈ rows, row.satisfies filter = .ok (isHit filter row)

theorem Decides.cons {filter row : Document} {rows : List Document} {hit : Bool} (h : row.satisfies filter = .ok hit)
    (hrows : Decides filter rows) : Decides filter (row :: rows) :=
  List.forall_mem_cons.2 ⟨by rw [isHit_eq h, h], hrows⟩

end Document

theorem Pipeline.decides_of_filterRows {filter : Document} {rows kept : List Document}
    (h : filterRows filter rows = .ok kept) : Document.Decides filter rows := by
  induction rows generalizing kept with
  | nil => exact fun row hrow => absurd hrow List.not_mem_nil
  | cons first rest ih =>
    obtain ⟨hit, hhit, h⟩ := bind_eq_ok.1 h
    obtain ⟨more, hmore, -⟩ := bind_eq_ok.1 h
    exact .cons hhit (ih hmore)

theorem decides_of_marks {filter : Document} {rows : List Document} {hits : List Bool}
    (h : marks filter .every rows = .ok hits) : Document.Decides filter rows := by
  induction rows generalizing hits with
  | nil => exact fun row hrow => absurd hrow List.not_mem_nil
  | cons first rest ih =>
    obtain ⟨hit, hhit, h⟩ := bind_eq_ok.1 h
    rw [if_neg (by simp)] at h
    obtain ⟨more, hmore, -⟩ := bind_eq_ok.1 h
    exact .cons hhit (ih hmore)

theorem Store.Changed.documents {before after : Store} {collection : String} {f : List Document → List Document}
    (h : Changed before after collection f) (hf : f [] = []) :
    after.documents collection = f (before.documents collection) := by
  rw [Store.documents, h.get?, if_pos rfl, Store.documents]
  cases Dict.get? before.collections collection with
  | none => exact hf.symm
  | some ds => rfl

/-- What becomes of a restriction of the statements on `t`: a filter on the documents of a collection. -/
structure Restriction (d : Dialect) (t : Table) (p : Predicate) (parameters : List Scalar) where
  collection : String
  planned : Filter
  values : List Value
  collection_eq : d.catalog.collectionOf t.name = .ok collection
  planned_eq : Direct.filter d (some t) p = .ok planned
  values_eq : Session.encodeAll d.codec parameters = .ok values
  positions : ∀ n, n ∈ p.parameters ↔ n < values.length

namespace Session

variable {session : Session} {t : Table} {p : Predicate} {parameters : List Scalar}

/-- A SELECT with the restriction answers, whatever its select list, and the row is among those it answers with. -/
def Selects (session : Session) (t : Table) (p : Predicate) (parameters : List Scalar) (row : Document) : Prop :=
  ∃ rows : List Document, row ∈ rows ∧ ∀ selections selected,
    Direct.projections session.dialect (some t) [] selections = .ok selected →
    session.query (.select (.bare t selections (some p))) parameters =
      (.ok (rows.map (pick (Direct.selectedFields session.dialect t selections))), session)

/-- A DELETE with the restriction is carried out, and the row is among those that it takes out of the collection. -/
def Deletes (session : Session) (t : Table) (p : Predicate) (parameters : List Scalar) (collection : String)
    (row : Document) : Prop :=
  ∃ (n : Nat) (store : Store),
    session.execute (.delete ⟨t, some p⟩) parameters = (.ok (.affected n), { session with store }) ∧
    (store.documents collection).length + n = (session.store.documents collection).length ∧
    row ∈ session.store.documents collection ∧ row ∉ store.documents collection

end Session

namespace Restriction

open Session

variable {session : Session} {t : Table} {p : Predicate} {parameters : List Scalar}
  (r : Restriction session.dialect t p parameters)

/-- The document of the filter. -/
def document : Document := r.planned.fill (valuesAt r.values)

/-- The rows that the filter is tried on. -/
def candidates : List Document := session.store.documents r.collection

theorem query_eq (hk : ∀ row ∈ r.candidates, (Dict.keys row).Nodup) {selections : List Selection}
    {selected : List Projection} (hs : Direct.projections session.dialect (some t) [] selections = .ok selected) :
    session.query (.select (.bare t selections (some p))) parameters =
      ((Pipeline.filterRows r.document r.candidates).map
        (List.map (pick (Direct.selectedFields session.dialect t selections))), session) := by
  have hstage : Direct.filterStage session.dialect (some t) (some p) = .ok [.filter r.planned] := by
    rw [Direct.filterStage, r.planned_eq]
    rfl
  have hrun : Pipeline.run (session.store.documents r.collection)
      ([Stage.filter r.planned].map (Stage.fill (valuesAt r.values))) =
        Pipeline.filterRows r.document r.candidates := Direct.run_filter r.planned r.candidates
  have hn : ∀ n, n ∈ Predicate.optionParameters (some p) ↔ n < r.values.length := by
    simpa [Predicate.optionParameters] using r.positions
  rw [query_bare session r.collection_eq hstage hs r.values_eq hn, hrun]
  intro rows hrows row hrow
  rw [hrun] at hrows
  obtain rfl := Except.ok.inj ((Pipeline.filterRows_eq (Pipeline.decides_of_filterRows hrows)).symm.trans hrows)
  exact hk row (List.mem_filter.1 hrow).1

/-- The command that a DELETE with the restriction is rendered to. -/
def deletion : Document := (Command.delete r.collection r.planned).fill (valuesAt r.values)

theorem execute_delete : session.execute (.delete ⟨t, some p⟩) parameters =
    ((session.store.execute session.fresh r.deletion).1,
      { session with store := (session.store.execute session.fresh r.deletion).2 }) := by
  have hplan : Direct.command session.dialect (.delete ⟨t, some p⟩) = .ok (.delete r.collection r.planned) := by
    rw [Direct.command, Direct.delete, r.collection_eq, ok_bind, Direct.restriction, r.planned_eq]
    rfl
  refine execute_of_render (render_eq_ok.2 ⟨_, r.values, hplan, r.values_eq, fun n => ?_, rfl⟩)
  rw [Command.positions, Direct.positions_filter r.planned_eq]
  exact r.positions n

theorem affects_deletion (h : Document.Decides r.document r.candidates) :
    session.store.Affects r.collection (Document.isHit r.document)
      (List.filter fun row => !Document.isHit r.document row) (session.store.execute session.fresh r.deletion) :=
  Store.affects_delete session.fresh h

/-- A DELETE that is carried out has decided about every row. -/
theorem decides_of_deletion {answer : Answer} (h : (session.store.execute session.fresh r.deletion).1 = .ok answer) :
    Document.Decides r.document r.candidates := by
  rw [deletion, Store.execute_of_asks (Store.asks_delete ..), Store.Verb.run_of_step rfl,
    Store.change_single] at h
  intro row hrow
  unfold candidates Store.documents at hrow
  cases hg : Dict.get? session.store.collections r.collection with
  | none => simp [hg] at hrow
  | some rows =>
    rw [hg] at hrow
    simp only [hg] at h
    cases hm : marks r.document .every rows with
    | error e =>
      have hfail : Store.deleteOnce (Store.deleteSpec (valuesAt r.values) r.planned) rows = .error e := by
        rw [Store.deleteOnce, Store.ofDocument_deleteSpec, ok_bind]
        exact congrArg (· >>= _) hm
      simp [hfail] at h
    | ok hits => exact decides_of_marks hm row hrow

variable {row : Document}

/-- A restriction selects a row if its filter takes the row and fails for no other. -/
theorem selects_iff (hk : ∀ row ∈ r.candidates, (Dict.keys row).Nodup) (hrow : row ∈ r.candidates) :
    session.Selects t p parameters row ↔
      Document.Decides r.document r.candidates ∧ row.satisfies r.document = .ok true := by
  constructor
  · rintro ⟨rows, hmem, hquery⟩
    have hq := (r.query_eq hk rfl).symm.trans (hquery [] [] rfl)
    have hpick : pick (Direct.selectedFields session.dialect t []) = id := funext fun row => if_pos rfl
    rw [hpick, List.map_id_fun] at hq
    cases hf : Pipeline.filterRows r.document r.candidates with
    | error e => simp [hf, Except.map] at hq
    | ok kept =>
      have hd := Pipeline.decides_of_filterRows hf
      rw [hf] at hq
      obtain rfl : kept = rows := Except.ok.inj (Prod.mk.inj hq).1
      obtain rfl := Except.ok.inj ((Pipeline.filterRows_eq hd).symm.trans hf)
      exact ⟨hd, by rw [hd row hrow, (List.mem_filter.1 hmem).2]⟩
  · rintro ⟨hd, hsat⟩
    refine ⟨r.candidates.filter (Document.isHit r.document), ?_, fun selections selected hs => ?_⟩
    · exact List.mem_filter.2 ⟨hrow, Document.isHit_eq hsat⟩
    · rw [r.query_eq hk hs, Pipeline.filterRows_eq hd]
      rfl

/-- So it is with a DELETE. -/
theorem deletes_iff (hrow : row ∈ r.candidates) :
    session.Deletes t p parameters r.collection row ↔
      Document.Decides r.document r.candidates ∧ row.satisfies r.document = .ok true := by
  unfold Session.Deletes
  rw [r.execute_delete]
  constructor
  · rintro ⟨n, store, hrun, -, -, hgone⟩
    obtain ⟨hanswer, hafter⟩ := Prod.mk.inj hrun
    obtain rfl : _ = store := congrArg Session.store hafter
    have hd := r.decides_of_deletion hanswer
    rw [(r.affects_deletion hd).2.documents rfl, List.mem_filter, not_and] at hgone
    have hhit : Document.isHit r.document row = true := by simpa using hgone hrow
    exact ⟨hd, by rw [hd row hrow, hhit]⟩
  · rintro ⟨hd, hsat⟩
    obtain ⟨hcount, hchanged⟩ := r.affects_deletion hd
    refine ⟨_, _, Prod.ext hcount rfl, ?_, hrow, ?_⟩
    · rw [hchanged.documents rfl, ← List.countP_eq_length_filter, Nat.add_comm]
      simpa using (List.length_eq_countP_add_countP (Document.isHit r.document)).symm
    · rw [hchanged.documents rfl, List.mem_filter, Document.isHit_eq hsat]
      simp

end Restriction

/-! ### Inserted rows -/

/-- A stored row has the wire value of each scalar under its field, and no documents inside. -/
theorem Store.StoredAs.get? {fresh : Nat → ObjectId} {low high : Nat} {fields : List String} {vs : List Scalar}
    {row : Document} (h : StoredAs fresh low high (fields.zip (vs.map Codec.toWire)) row) (hk : (Dict.keys row).Nodup)
    {field : String} {v : Scalar} (hv : (field, v) ∈ fields.zip vs) :
    Dict.get? row field = some (Codec.toWire v) ∧ ∀ entry ∈ row, entry.2.document? = none := by
  rw [List.zip_map_right] at h
  have hentry : (field, Codec.toWire v) ∈ (fields.zip vs).map (Prod.map id Codec.toWire) :=
    List.mem_map.2 ⟨_, hv, rfl⟩
  have hflat : ∀ entry ∈ (fields.zip vs).map (Prod.map id Codec.toWire), entry.2.document? = none := by
    intro entry he
    obtain ⟨pair, -, rfl⟩ := List.mem_map.1 he
    exact Codec.document?_toWire pair.2
  rcases h with ⟨-, rfl⟩ | ⟨-, n, -, -, rfl⟩
  · exact ⟨Dict.get?_of_mem hk hentry, hflat⟩
  · exact ⟨Dict.get?_of_mem hk (List.mem_cons_of_mem _ hentry), List.forall_mem_cons.2 ⟨rfl, hflat⟩⟩

/-- A filter that asks for the wire value that a row has in a field takes the row, and fails for no other, if the
field is a plain name. -/
theorem Document.meets_iff {rows : List Document} {row : Document} {path : FieldPath} {v : Scalar}
    (hentry : Dict.get? row path.text = some (Codec.toWire v)) (hflat : ∀ entry ∈ row, entry.2.document? = none)
    (hv : v.isNaN = false) {filter : Document}
    (hfilter : filter = [(path.text, .document [(QueryOperator.eq.token, Codec.toWire v)])]) :
    Decides filter rows ∧ row.satisfies filter = .ok true ↔ path.IsPlain := by
  subst hfilter
  constructor
  · rintro ⟨-, hsat⟩
    cases ho : isOperatorName path.text with
    | true =>
      obtain ⟨fault, hfault⟩ := satisfies_operatorName ho [(QueryOperator.eq.token, Codec.toWire v)]
      simp [hfault] at hsat
    | false =>
      refine ⟨ho, fun hdot => ?_⟩
      rw [row.satisfies_comparison ho, lookup_of_dotted hdot hflat] at hsat
      simp [QueryOperator.holds] at hsat
  · rintro ⟨ho, hdot⟩
    have hsat (other : Document) := other.satisfies_comparison ho .eq (Codec.toWire v)
    refine ⟨fun other _ => by rw [isHit_eq (hsat other), hsat], ?_⟩
    rw [hsat, lookup_of_undotted hdot, hentry]
    exact congrArg Except.ok ((Codec.equals_toWire v).trans (by rw [hv]; rfl))

/-- `c = v` becomes a filter on the field of `c`. -/
theorem Restriction.exists_equals {d : Dialect} {t : Table} {c : Column} {field collection : String} (hc : d.codec = .exact)
    (hcoll : d.catalog.collectionOf t.name = .ok collection) (hf : Direct.fieldOf d (some t) c = .ok ⟨field⟩)
    {v : Scalar} {e : Expression} {parameters : List Scalar} (he : e.Gives v parameters) :
    ∃ r : Restriction d t (.equals c e) parameters, r.collection = collection ∧
      r.planned.fill (valuesAt r.values) = [(field, .document [(QueryOperator.eq.token, Codec.toWire v)])] := by
  obtain ⟨f, hplan, hfill⟩ := Direct.filter_equals hc hf he
  have hv : Session.encodeAll d.codec parameters = .ok (parameters.map Codec.toWire) := by
    rw [hc, Session.encodeAll_exact]
  exact ⟨⟨collection, f, _, hcoll, hplan, hv, Direct.mem_parameters_equals he⟩, rfl, hfill⟩

namespace Session

/-- After an INSERT that was carried out, a SELECT or DELETE restricted by the value that a new row has for a column
takes that row exactly if the field of the column is a plain name. -/
theorem meets_inserted_iff {session after : Session} {s : Insert} {parameters : List Scalar} {n : Nat}
    (hs : session.store.Distinct) (hc : session.dialect.codec = .exact)
    (h : session.execute (.insert s) parameters = (.ok (.affected n), after)) :
    ∃ rows collection fields scalars stored, s.source = .rows rows ∧
      session.dialect.catalog.collectionOf s.table.name = .ok collection ∧
      List.Forall₂ (fun c field => session.dialect.catalog.fieldOf s.table.name c.name = .ok field) s.columns fields ∧
      List.Forall₂ (List.Forall₂ fun e v => e.scalar? parameters = some v) rows scalars ∧
      after.store.documents collection = session.store.documents collection ++ stored ∧
      List.Forall₂ (fun row vs => ∀ c field v, ((c, field), v) ∈ (s.columns.zip fields).zip vs → v.isNaN = false →
        ∀ e given, e.Gives v given →
          (after.Selects s.table (.equals c e) given row ↔ FieldPath.IsPlain ⟨field⟩) ∧
          (after.Deletes s.table (.equals c e) given collection row ↔ FieldPath.IsPlain ⟨field⟩))
        stored scalars := by
  obtain ⟨i, stored, store, -, rfl, hstored, happended⟩ := execute_insert hc h
  refine ⟨i.rows, i.collection, i.fields, i.scalars, stored, i.source_eq, i.collection_eq,
    i.fields_eq.imp fun c field hf => Direct.fieldOf_eq_ok hf, i.scalars_eq, happended, ?_⟩
  have hdistinct := i.distinct_documents hs hstored happended
  have hmem : ∀ row ∈ stored, row ∈ store.documents i.collection := fun row hrow => by
    rw [happended]
    exact List.mem_append_right _ hrow
  rw [Insert.Content.documents, List.forall₂_map_left_iff] at hstored
  refine ((List.forall₂_and_left _ _).2 ⟨hmem, hstored.flip⟩).imp ?_
  rintro row vs ⟨hrow, hrowStored⟩ c field v hentry hv e given he
  -- the column stands over its field, and the field over the value of the row
  have hf := List.forall₂_zip i.fields_eq (List.of_mem_zip hentry).1
  have hpair : (field, v) ∈ i.fields.zip vs := by
    rw [← List.map_snd_zip (Nat.le_of_eq i.fields_eq.length_eq.symm), List.zip_map_left]
    exact List.mem_map.2 ⟨_, hentry, rfl⟩
  obtain ⟨hget, hflat⟩ := Store.StoredAs.get? hrowStored (hdistinct row hrow).keys hpair
  let after : Session := { session with store }
  obtain ⟨r, hcoll, hfilter⟩ := Restriction.exists_equals (d := after.dialect) hc i.collection_eq hf he
  have hcandidates : r.candidates = store.documents i.collection := by rw [Restriction.candidates, hcoll]
  have hkeys : ∀ row ∈ r.candidates, (Dict.keys row).Nodup := by
    rw [hcandidates]
    exact fun row hrow => (hdistinct row hrow).keys
  rw [← hcandidates] at hrow
  rw [← hcoll]
  exact ⟨(r.selects_iff hkeys hrow).trans (Document.meets_iff hget hflat hv hfilter),
    (r.deletes_iff hrow).trans (Document.meets_iff hget hflat hv hfilter)⟩

end Session

/-- The row of the second guest is met by either of its columns. -/
theorem Session.meets_inserted_guests : ∃ after row,
    people.execute (.insert .guests) [.instant .arrival, .string "k"] =
      (.ok (.affected 2), after) ∧
    after.Selects ⟨"people", some "p"⟩ (.equals ⟨some "p", "age"⟩ (.literal (.int64 5))) [] row ∧
    after.Deletes ⟨"people", some "p"⟩ (.equals ⟨none, "id"⟩ (.parameter 0)) [.string "k"] "persons" row := by
  obtain ⟨after, hrun⟩ := execute_guests
  obtain ⟨rows, collection, fields, scalars, stored, hsource, hcoll, hfields, hscalars, -, hmeets⟩ :=
    meets_inserted_iff Store.distinct_people rfl hrun
  obtain ⟨rfl, rfl, rfl⟩ := Insert.guests_eq hsource hcoll hfields hscalars
  rcases hmeets with _ | ⟨-, _ | ⟨hsecond, _ | _⟩⟩
  have hplain : FieldPath.IsPlain ⟨"years"⟩ ∧ FieldPath.IsPlain ⟨"_id"⟩ := by
    unfold FieldPath.IsPlain
    decide
  have hselects := (hsecond _ _ _ (List.mem_cons_self ..) rfl _ _ .literal).1.2 hplain.1
  have hdeletes := (hsecond _ _ _ (List.mem_cons_of_mem _ (List.mem_cons_self ..)) rfl _ _ .parameter).2.2 hplain.2
  exact ⟨after, _, hrun, hselects, hdeletes⟩

/-- A table with a dotted field and one that begins with a dollar sign. -/
def TableMapping.shops : TableMapping where
  table := "shops"
  collection := "shops"
  idColumn := some "id"
  columns := [("zip", "address.zip"), ("price", "$price")]

def Config.shops : Config := { connection := "mongodb://localhost", database := "town", tables := [.shops] }

/-- `INSERT INTO shops (id, zip, price) VALUES (1, 8000, 9)` -/
def Insert.shop : Insert where
  table := ⟨"shops", none⟩
  columns := [⟨none, "id"⟩, ⟨none, "zip"⟩, ⟨none, "price"⟩]
  source := .rows [[.literal (.int32 1), .literal (.int32 8000), .literal (.int32 9)]]

/-- An empty session on shops. -/
def Session.shops : Session where
  dialect := { catalog := Config.shops.catalog, codec := .exact }
  fresh := Store.zeros

/-- The configuration is valid and the row is stored, but its values for the two columns do not lead back to it. -/
theorem Session.misses_inserted : ∃ after, ofConfig .shops Store.zeros {} = .ok shops ∧
    shops.execute (.insert .shop) [] = (.ok (.affected 1), after) ∧
    after.store.documents "shops" = [[("_id", .int32 1), ("address.zip", .int32 8000), ("$price", .int32 9)]] ∧
    after.query (.select (.bare ⟨"shops", none⟩ [] (some (.equals ⟨none, "zip"⟩ (.literal (.int32 8000)))))) [] =
      (.ok [], after) ∧
    (after.execute (.delete ⟨⟨"shops", none⟩, some (.equals ⟨none, "zip"⟩ (.literal (.int32 8000)))⟩) []).1 =
      .ok (.affected 0) ∧
    after.query (.select (.bare ⟨"shops", none⟩ [] (some (.equals ⟨none, "price"⟩ (.literal (.int32 9)))))) [] =
      (.error (.store (.unknownOperator "$price")), after) ∧
    (after.execute (.delete ⟨⟨"shops", none⟩, some (.equals ⟨none, "price"⟩ (.literal (.int32 9)))⟩) []).1 =
      .error (.store (.unknownOperator "$price")) := by
  have hplan : Direct.command shops.dialect (.insert .shop) = .ok (.insert "shops"
      [[("_id", .literal (.int32 1)), ("address.zip", .literal (.int32 8000)), ("$price", .literal (.int32 9))]]) := rfl
  have hn : ∀ n, n ∈ ([] : List Nat) ↔ n < 0 := by simp
  have he : shops.execute (.insert .shop) [] = shops.run _ :=
    execute_of_render (render_eq_ok.2 ⟨_, [], hplan, rfl, hn, rfl⟩)
  have hrun := he.trans (Prod.ext (y := (.ok (.affected 1), _)) rfl rfl)
  exact ⟨_, rfl, hrun, rfl, rfl, rfl, rfl, rfl⟩

end RelDoc
