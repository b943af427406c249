import RelDoc.Proofs.Insertion
import RelDoc.Proofs.Parameters
import RelDoc.Proofs.Query

/-!
# Rows of a session

An INSERT that a session carries out appends a document for each of its rows, with the wire values of the
row's scalars under the fields of the columns (`Session.execute_insert`). A SELECT without other clauses than
a select list and a restriction answers with the selected fields of the documents that the restriction takes
(`Session.query_bare`).
-/

namespace RelDoc

open Outcome

/-! ### Scalars that are inserted -/

namespace Expression

/-- The scalar that an expression stands for: a literal, or the value of a parameter. -/
def scalar? (parameters : List Scalar) : Expression → Option Scalar
  | literal v => some v
  | parameter n => parameters[n]?
  | _ => none

end Expression

namespace Dialect.Plans

variable {d : Dialect} {t : Table} {parameters : List Scalar}

/-- A planned value is filled in with the wire value of its scalar. -/
theorem fill_eq (hc : d.codec = .exact) {e : Expression} {term : Term} (h : d.Plans t e (.value term))
    (hp : ∀ n ∈ e.parameters, n < parameters.length) :
    ∃ v, e.scalar? parameters = some v ∧ term.fill (valuesAt (parameters.map Codec.toWire)) = Codec.toWire v := by
  cases h with
  | @literal v w hw hs =>
    rw [hc] at hw
    obtain rfl := Except.ok.inj hw
    exact ⟨v, rfl, rfl⟩
  | parameter n =>
    have hn : n < parameters.length := hp n (by simp [Expression.parameters])
    refine ⟨parameters[n], List.getElem?_eq_getElem hn, ?_⟩
    simp [Term.fill, valuesAt, hn]

theorem fill_all (hc : d.codec = .exact) {es : List Expression} {terms : List Term}
    (h : List.Forall₂ (fun e term => d.Plans t e (.value term)) es terms)
    (hp : ∀ n ∈ es.flatMap Expression.parameters, n < parameters.length) :
    ∃ scalars, List.Forall₂ (fun e v => e.scalar? parameters = some v) es scalars ∧
      terms.map (Term.fill (valuesAt (parameters.map Codec.toWire))) = scalars.map Codec.toWire := by
  induction h with
  | nil => exact ⟨[], .nil, rfl⟩
  | @cons e term es terms h _ ih =>
    rw [List.flatMap_cons] at hp
    obtain ⟨v, hv, hf⟩ := h.fill_eq hc fun n hn => hp n (List.mem_append_left _ hn)
    obtain ⟨scalars, hs, hfs⟩ := ih fun n hn => hp n (List.mem_append_right _ hn)
    exact ⟨v :: scalars, .cons hv hs, by rw [List.map_cons, List.map_cons, hf, hfs]⟩

end Dialect.Plans

theorem Term.fillFields_zip (σ : Nat → Value) (names : List String) (terms : List Term) :
    fillFields σ (names.zip terms) = names.zip (terms.map (fill σ)) := by
  induction names generalizing terms with
  | nil => rfl
  | cons name rest ih =>
    cases terms with
    | nil => rfl
    | cons term terms => rw [List.zip_cons_cons, fillFields, ih, List.map_cons, List.zip_cons_cons]

/-! ### INSERT -/

/-- What an INSERT puts into the store: scalars for the expressions of its rows, under the fields of its columns. -/
structure Insert.Content (d : Dialect) (s : Insert) (parameters : List Scalar) where
  rows : List (List Expression)
  collection : String
  fields : List String
  scalars : List (List Scalar)
  source_eq : s.source = .rows rows
  collection_eq : d.catalog.collectionOf s.table.name = .ok collection
  fields_eq : List.Forall₂ (fun c field => Direct.fieldOf d (some s.table) c = .ok ⟨field⟩) s.columns fields
  scalars_eq : List.Forall₂ (List.Forall₂ fun e v => e.scalar? parameters = some v) rows scalars
  widths : ∀ vs ∈ scalars, vs.length = fields.length
  nodup : fields.Nodup

namespace Insert.Content

variable {d : Dialect} {s : Insert} {parameters : List Scalar}

/-- The documents of the rows, in the order of the columns. -/
def documents (i : Content d s parameters) : List Document :=
  i.scalars.map fun vs => i.fields.zip (vs.map Codec.toWire)

theorem keys_of_mem (i : Content d s parameters) {doc : Document} (h : doc ∈ i.documents) :
    Dict.keys doc = i.fields := by
  obtain ⟨vs, hvs, rfl⟩ := List.mem_map.1 h
  exact List.map_fst_zip (by rw [List.length_map, i.widths vs hvs])

/-- Rows that the documents are stored as have distinct names. -/
theorem distinct_rows (i : Content d s parameters) {fresh : Nat → ObjectId} {low high : Nat} {rows : List Document}
    (h : List.Forall₂ (Store.StoredAs fresh low high) i.documents rows) :
    ∀ row ∈ rows, (Value.document row).Distinct := by
  intro row hrow
  obtain ⟨doc, hdoc, hstored⟩ := forall₂_mem_right h hrow
  refine hstored.distinct (Value.distinct_document ?_ fun p hp => ?_)
  · rw [i.keys_of_mem hdoc]
    exact i.nodup
  · obtain ⟨vs, -, rfl⟩ := List.mem_map.1 hdoc
    obtain ⟨v, -, hv⟩ := List.mem_map.1 (List.of_mem_zip hp).2
    exact Codec.distinct_exact v _ (congrArg Except.ok hv)

/-- So have all documents of the collection that they are appended to. -/
theorem distinct_documents (i : Content d s parameters) {fresh : Nat → ObjectId} {low high : Nat}
    {rows : List Document} {before after : Store} (hs : before.Distinct)
    (hstored : List.Forall₂ (Store.StoredAs fresh low high) i.documents rows)
    (happended : after.documents i.collection = before.documents i.collection ++ rows) :
    ∀ row ∈ after.documents i.collection, (Value.document row).Distinct := by
  intro row hrow
  rcases List.mem_append.1 (happended ▸ hrow) with hrow | hrow
  · exact hs.documents row hrow
  · exact i.distinct_rows hstored row hrow

end Insert.Content

namespace Direct

variable {d : Dialect} {t : Table} {parameters : List Scalar}

/-- A planned row is filled in with the wire values of its scalars. -/
theorem fill_document (hc : d.codec = .exact) {fields : List FieldPath} {es : List Expression} {doc : Template}
    (h : document d (some t) fields es = .ok doc)
    (hp : ∀ n ∈ es.flatMap Expression.parameters, n < parameters.length) : (fields.map FieldPath.text).Nodup ∧
    ∃ scalars, List.Forall₂ (fun e v => e.scalar? parameters = some v) es scalars ∧
      scalars.length = fields.length ∧ (Term.template doc).fill (valuesAt (parameters.map Codec.toWire)) =
        .document ((fields.map FieldPath.text).zip (scalars.map Codec.toWire)) := by
  obtain ⟨hl, hrow, hn⟩ := document_eq_ok h
  obtain ⟨terms, hterms, rfl⟩ := row_eq_ok hrow hl
  obtain ⟨scalars, hs, hf⟩ := Dialect.Plans.fill_all hc hterms hp
  have hwidth : (fields.map FieldPath.text).length ≤ terms.length := by
    rw [List.length_map, ← hterms.length_eq, hl]
  rw [List.map_fst_zip hwidth] at hn
  refine ⟨hn, scalars, hs, by rw [← hs.length_eq, hl], ?_⟩
  rw [Term.fill, Term.fillFields_zip, hf]

theorem fill_documents (hc : d.codec = .exact) {fields : List FieldPath} {rows : List (List Expression)}
    {docs : List Template} (h : List.Forall₂ (fun es doc => document d (some t) fields es = .ok doc) rows docs)
    (hp : ∀ n ∈ rows.flatMap (·.flatMap Expression.parameters), n < parameters.length) :
    ∃ scalars, List.Forall₂ (List.Forall₂ fun e v => e.scalar? parameters = some v) rows scalars ∧
      (∀ vs ∈ scalars, vs.length = fields.length) ∧
      docs.map (fun doc => (Term.template doc).fill (valuesAt (parameters.map Codec.toWire))) =
        scalars.map fun vs => .document ((fields.map FieldPath.text).zip (vs.map Codec.toWire)) := by
  induction h with
  | nil => exact ⟨[], .nil, by simp, rfl⟩
  | @cons es doc rows docs h _ ih =>
    rw [List.flatMap_cons] at hp
    obtain ⟨-, vs, hvs, hl, hf⟩ := fill_document hc h fun n hn => hp n (List.mem_append_left _ hn)
    obtain ⟨scalars, hs, hls, hfs⟩ := ih fun n hn => hp n (List.mem_append_right _ hn)
    exact ⟨vs :: scalars, .cons hvs hs, List.forall_mem_cons.2 ⟨hl, hls⟩,
      by rw [List.map_cons, List.map_cons, hf, hfs]⟩

end Direct

namespace Session

theorem execute_of_render {session : Session} {s : Statement} {parameters : List Scalar} {command : Document}
    (h : render session.dialect s parameters = .ok command) : session.execute s parameters = session.run command := by
  rw [execute, h]

/-- A rendered INSERT asks for its content to be inserted. -/
theorem content_of_render {d : Dialect} {s : Insert} {parameters : List Scalar} (hc : d.codec = .exact)
    {command : Document} (h : render d (.insert s) parameters = .ok command) :
    ∃ i : Insert.Content d s parameters, Store.Asks command .insert i.collection i.documents := by
  obtain ⟨c, values, hplan, hv, hpos, rfl⟩ := render_eq_ok.1 h
  rw [hc, encodeAll_exact] at hv
  obtain rfl := Except.ok.inj hv
  have hp : ∀ n ∈ s.parameters, n < parameters.length := by
    intro n hn
    rw [← Direct.positions_insert hplan, hpos, List.length_map] at hn
    exact hn
  obtain ⟨rows, collection, fields, docs, hsource, hcoll, hfields, hdocs, hne, rfl⟩ := Direct.insert_eq_ok hplan
  rw [Insert.parameters, hsource] at hp
  obtain ⟨scalars, hscalars, hwidths, hfill⟩ := Direct.fill_documents hc hdocs hp
  have hnodup : (fields.map FieldPath.text).Nodup := by
    obtain ⟨doc, hdoc⟩ := List.exists_mem_of_ne_nil docs hne
    obtain ⟨es, hes, hd⟩ := forall₂_mem_right hdocs hdoc
    exact (Direct.fill_document hc hd fun n hn => hp n (List.mem_flatMap.2 ⟨es, hes, hn⟩)).1
  refine ⟨⟨rows, collection, fields.map FieldPath.text, scalars, hsource, hcoll,
    List.forall₂_map_right_iff.2 hfields, hscalars, by simpa using hwidths, hnodup⟩, ?_⟩
  have hasks := Store.asks_pair .insert collection
    (scalars.map fun vs => (fields.map FieldPath.text).zip (vs.map Codec.toWire))
  rw [List.map_map] at hasks
  have hparts : (Command.insert collection docs).fill (valuesAt (parameters.map Codec.toWire)) =
      [("insert", .string collection), ("documents", .array (scalars.map fun vs =>
        .document ((fields.map FieldPath.text).zip (vs.map Codec.toWire))))] := by
    rw [← hfill]
    rfl
  rw [hparts]
  exact hasks

/-- An INSERT that is carried out appends a row for each of its documents. -/
theorem execute_insert {session after : Session} {s : Insert} {parameters : List Scalar} {n : Nat}
    (hc : session.dialect.codec = .exact) (h : session.execute (.insert s) parameters = (.ok (.affected n), after)) :
    ∃ (i : Insert.Content session.dialect s parameters) (rows : List Document) (store : Store),
      n = i.rows.length ∧ after = { session with store } ∧
      List.Forall₂ (Store.StoredAs session.fresh session.store.issued store.issued) i.documents rows ∧
      store.documents i.collection = session.store.documents i.collection ++ rows := by
  unfold execute at h
  split at h
  · simp at h
  · next command hr =>
    obtain ⟨i, hasks⟩ := content_of_render hc hr
    have hinserted : Store.Inserted session.fresh session.store command
      (session.store.accept session.fresh i.collection i.documents) := Store.inserted_accept hasks
    rw [run, Store.execute_of_asks hasks, Store.Verb.run] at h
    generalize session.store.accept session.fresh i.collection i.documents = outcome at hinserted h
    cases hinserted with
    | none => simp at h
    | all asks stored appended =>
      obtain ⟨-, rfl, rfl⟩ := hasks.unique asks
      obtain ⟨hn, rfl⟩ := Prod.mk.inj h
      obtain rfl := Answer.affected.inj (Except.ok.inj hn)
      refine ⟨i, _, _, ?_, rfl, stored, appended⟩
      rw [Insert.Content.documents, List.length_map, i.scalars_eq.length_eq]

end Session

/-! ### SELECT without other clauses -/

/-- A SELECT with a select list and a restriction alone. -/
def Select.bare (t : Table) (selections : List Selection) (restriction : Option Predicate := none) : Select :=
  { table := t, selections, restriction }

namespace Direct

variable {d : Dialect} {t : Table}

theorem checkFields_eq_ok {clause : FieldClause} {fields : List FieldPath} (hn : (fields.map FieldPath.text).Nodup)
    (hne : fields ≠ []) : checkFields clause fields = .ok () := by
  have hr : firstRepeated [] (fields.map FieldPath.text) = none :=
    firstRepeated_eq_none.2 ⟨hn, fun _ _ => List.not_mem_nil⟩
  rw [checkFields, hr]
  exact if_neg fun he => hne (List.isEmpty_iff.1 he)

/-- An item whose field is not there yet leaves the fields distinct. -/
theorem nodup_concat {α β : Type} {field : α → β} {found : List α} {p : α} (h : (found.map field).Nodup)
    (hp : ∀ q ∈ found, field q ≠ field p) : ((found ++ [p]).map field).Nodup := by
  rw [List.map_append, List.nodup_append]
  refine ⟨h, List.nodup_singleton _, fun a ha b hb => ?_⟩
  obtain ⟨q, hq, rfl⟩ := List.mem_map.1 ha
  rw [List.mem_singleton.1 hb]
  exact hp q hq

theorem nodup_projections {found selected : List Projection} {selections : List Selection}
    (hs : projections d (some t) found selections = .ok selected) (h : (found.map Projection.field).Nodup) :
    (selected.map Projection.field).Nodup := by
  induction selections generalizing found with
  | nil =>
    obtain rfl := Except.ok.inj hs
    exact h
  | cons s rest ih =>
    obtain ⟨p, -, hs⟩ := bind_eq_ok.1 hs
    refine ih hs ?_
    unfold addProjection
    split
    · exact h
    · next hno => exact nodup_concat h (by simpa using hno)

theorem nodup_completeProjection {selected : List Projection} (h : (selected.map Projection.field).Nodup) :
    ((completeProjection selected).map Projection.field).Nodup := by
  unfold completeProjection
  split
  · exact h
  · next hno =>
    simp only [Bool.or_eq_true, not_or, List.any_eq_true, not_exists, not_and] at hno
    refine nodup_concat h fun q hq he => hno.2 q hq ?_
    rw [he]
    rfl

/-- The projection of a select list can be carried out. -/
theorem projectStage_completed {selected : List Projection} (h : (selected.map Projection.field).Nodup) :
    ∃ project, projectStage (completeProjection selected) = .ok project := by
  unfold projectStage
  split
  · exact ⟨_, rfl⟩
  · next hne =>
    have htexts : (((completeProjection selected).map Projection.field).map FieldPath.text).Nodup :=
      (nodup_completeProjection h).map fun p q he => congrArg FieldPath.mk he
    have hc : checkFields .project ((completeProjection selected).map Projection.field) = .ok () :=
      checkFields_eq_ok htexts (by simpa using hne)
    rw [Stage.ofProjections, hc]
    exact ⟨_, rfl⟩

theorem select_bare {selections : List Selection} {restriction : Option Predicate} {collection : String}
    (hc : d.catalog.collectionOf t.name = .ok collection) {filter : List Stage}
    (hf : filterStage d (some t) restriction = .ok filter) {selected : List Projection}
    (hs : projections d (some t) [] selections = .ok selected) :
    ∃ p : SelectParts d (.bare t selections restriction), select d (.bare t selections restriction) = .ok p.command ∧
      p.collection = collection ∧ p.filter = filter ∧ p.sort = [] ∧ p.skip = [] ∧ p.limit = [] := by
  obtain ⟨project, hp⟩ := projectStage_completed (nodup_projections hs List.nodup_nil)
  refine ⟨⟨collection, filter, selected, [], project, [], [], [], hc, hf, hs, rfl, hp, rfl, rfl, rfl⟩, ?_, rfl, rfl,
    rfl, rfl, rfl⟩
  simp only [select, Select.bare]
  rw [hc, hf, hs]
  simp only [ok_bind, sortKeys, hp]
  rfl

end Direct

/-- A SELECT without other clauses answers with the selected fields of the documents that its restriction takes. -/
theorem Session.query_bare (session : Session) {t : Table} {selections : List Selection}
    {restriction : Option Predicate} {collection : String}
    (hc : session.dialect.catalog.collectionOf t.name = .ok collection) {filter : List Stage}
    (hf : Direct.filterStage session.dialect (some t) restriction = .ok filter) {selected : List Projection}
    (hs : Direct.projections session.dialect (some t) [] selections = .ok selected) {parameters : List Scalar}
    {values : List Value} (hv : encodeAll session.dialect.codec parameters = .ok values)
    (hn : ∀ n, n ∈ Predicate.optionParameters restriction ↔ n < values.length)
    (hk : ∀ rows,
      Pipeline.run (session.store.documents collection) (filter.map (Stage.fill (valuesAt values))) = .ok rows →
      ∀ row ∈ rows, (Dict.keys row).Nodup) :
    session.query (.select (.bare t selections restriction)) parameters =
      ((Pipeline.run (session.store.documents collection) (filter.map (Stage.fill (valuesAt values)))).map
        (List.map (pick (Direct.selectedFields session.dialect t selections))), session) := by
  obtain ⟨p, hplan, rfl, rfl, hsort, hskip, hlimit⟩ := Direct.select_bare hc hf hs
  have hpos : ∀ n, n ∈ p.command.positions ↔ n < values.length := by
    intro n
    rw [Direct.positions_select hplan, Select.parameters, Select.bare, Direct.parameters_selections hs]
    simpa [Expression.optionParameters] using hn n
  have hr : render session.dialect (.select (.bare t selections restriction)) parameters =
      .ok (p.command.fill (valuesAt values)) := render_eq_ok.2 ⟨p.command, values, hplan, hv, hpos, rfl⟩
  rw [query, execute, hr]
  simp only [run]
  rw [Direct.SelectParts.command, Store.execute_aggregate, hsort, hskip, hlimit, List.append_nil, List.append_nil,
    List.append_nil, List.map_append, Pipeline.run_append]
  cases hrows : Pipeline.run (session.store.documents p.collection) (p.filter.map (Stage.fill (valuesAt values))) with
  | error e => rfl
  | ok rows =>
    rw [ok_bind, p.run_project (hk rows hrows)]
    rfl

/-- Without a restriction it answers with the selected fields of all documents. -/
theorem Session.query_all (session : Session) {t : Table} {selections : List Selection} {collection : String}
    (hc : session.dialect.catalog.collectionOf t.name = .ok collection) {selected : List Projection}
    (hs : Direct.projections session.dialect (some t) [] selections = .ok selected)
    (hk : ∀ row ∈ session.store.documents collection, (Dict.keys row).Nodup) :
    session.query (.select (.bare t selections)) [] =
      (.ok ((session.store.documents collection).map (pick (Direct.selectedFields session.dialect t selections))),
        session) := by
  have hf : Direct.filterStage session.dialect (some t) none = .ok [] := rfl
  have hv : encodeAll session.dialect.codec [] = .ok [] := rfl
  have hn : ∀ n, n ∈ Predicate.optionParameters none ↔ n < ([] : List Value).length := by
    simp [Predicate.optionParameters]
  refine (query_bare session hc hf hs hv hn fun rows hrows => ?_).trans ?_
  · obtain rfl := Except.ok.inj hrows
    exact hk
  · rfl

/-- Somewhat more than a second after the beginning, not on a whole millisecond. -/
def Instant.arrival : Instant where
  seconds := 1
  nanos := 1999999

/-- `INSERT INTO people p (p.age, id) VALUES (?0, 4), (5, ?1)` -/
def Insert.guests : Insert where
  table := ⟨"people", some "p"⟩
  columns := [⟨some "p", "age"⟩, ⟨none, "id"⟩]
  source := .rows [[.parameter 0, .literal (.int32 4)], [.literal (.int64 5), .parameter 1]]

/-- A session on three people. -/
def Session.people : Session where
  dialect := .people
  fresh := Store.zeros
  store := .people

/-- The two rows are inserted. -/
theorem Session.execute_guests : ∃ after,
    people.execute (.insert .guests) [.instant .arrival, .string "k"] =
      (.ok (.affected 2), after) := by
  have hplan : Direct.command .people (.insert .guests) = .ok (.insert "persons"
      [[("years", .placeholder 0), ("_id", .literal (.int32 4))],
        [("years", .literal (.int64 5)), ("_id", .placeholder 1)]]) := rfl
  have hv : encodeAll Dialect.people.codec [.instant .arrival, .string "k"] =
      .ok [.dateTime (Int64.ofInt 1001), .string "k"] := rfl
  have hn : ∀ n, n ∈ [0, 1] ↔ n < 2 := by
    intro n
    simp
    omega
  have he : people.execute (.insert .guests) _ = people.run _ :=
    execute_of_render (render_eq_ok.2 ⟨_, _, hplan, hv, hn, rfl⟩)
  have hrun := he.trans (Prod.ext (y := (.ok (.affected 2), _)) rfl rfl)
  exact ⟨_, hrun⟩

/-- Where they are stored, and what is stored of them. -/
theorem Insert.guests_eq {rows : List (List Expression)} {collection : String} {fields : List String}
    {scalars : List (List Scalar)} (hsource : guests.source = .rows rows)
    (hcoll : Session.people.dialect.catalog.collectionOf guests.table.name = .ok collection)
    (hfields : List.Forall₂ (fun c field => Session.people.dialect.catalog.fieldOf guests.table.name c.name = .ok field)
      guests.columns fields)
    (hscalars : List.Forall₂ (List.Forall₂ fun e v =>
      e.scalar? [.instant .arrival, .string "k"] = some v) rows scalars) :
    collection = "persons" ∧ fields = ["years", "_id"] ∧
      scalars = [[.instant .arrival, .int32 4], [.int64 5, .string "k"]] := by
  obtain rfl := RowSource.rows.inj hsource
  have hc : Session.people.dialect.catalog.collectionOf guests.table.name = .ok "persons" := rfl
  refine ⟨(Except.ok.inj (hc.symm.trans hcoll)).symm, ?_, ?_⟩
  · rcases hfields with _ | ⟨hage, _ | ⟨hid, _ | _⟩⟩
    have hyears : Session.people.dialect.catalog.fieldOf guests.table.name "age" = .ok "years" := rfl
    have hkey : Session.people.dialect.catalog.fieldOf guests.table.name "id" = .ok "_id" := rfl
    rw [Except.ok.inj (hyears.symm.trans hage), Except.ok.inj (hkey.symm.trans hid)]
  · rcases hscalars with _ | ⟨_ | ⟨ha, _ | ⟨hb, _ | _⟩⟩, _ | ⟨_ | ⟨hc, _ | ⟨hd, _ | _⟩⟩, _ | _⟩⟩
    rw [← Option.some.inj ha, ← Option.some.inj hb, ← Option.some.inj hc, ← Option.some.inj hd]

end RelDoc
