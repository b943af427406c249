import RelDoc.Proofs.Rows

/-!
# What is inserted reads back

The codec that keeps every type reads what it wrote, but for the part of an instant below a millisecond and
for leap seconds, which come back a second later (`Codec.ofWire_toWire`). So do rows: after an INSERT that was
carried out, a SELECT of its columns answers with the documents from before and then with the new rows, which
decode to the scalars that were inserted (`Session.insert_reads_back`). The primary key comes first wherever it
stands among the columns, and one that the store made is left out.
-/

namespace RelDoc

open Outcome

/-! ### Scalars -/

namespace Instant

/-- The instant as a clock of whole milliseconds shows it, rounded down. Such a clock has no leap seconds: one is
shown as the second that follows it, and the last one, which nothing follows, as the latest instant. -/
def inMillis (t : Instant) : Instant :=
  if t.nanos < 1000000000 then { t with nanos := t.nanos / 1000000 * 1000000, nanos_lt := by have := t.nanos_lt; omega }
  else if h : t.seconds < 8210266876799 then
    { seconds := t.seconds + 1
      nanos := (t.nanos - 1000000000) / 1000000 * 1000000
      earliest_le := by have := t.earliest_le; omega
      nanos_lt := by have := t.nanos_lt; omega }
  else latest

theorem toMillis_range (t : Instant) : -8334601228800000 ≤ t.toMillis ∧ t.toMillis ≤ 8210266876800999 := by
  have hlow := t.earliest_le
  have hhigh := t.le_latest
  have hnanos := t.nanos_lt
  unfold toMillis
  omega

/-- Milliseconds stand for the instant of whole milliseconds, outside of a leap second, that has them. -/
theorem ofMillis_eq {millis : Int} {t : Instant} (hregular : t.nanos < 1000000000) (hwhole : t.nanos % 1000000 = 0)
    (h : t.toMillis = millis) : ofMillis millis = t := by
  have hlow := t.earliest_le
  have hhigh := t.le_latest
  have hparts : millis = t.seconds * 1000 + (t.nanos / 1000000 : Nat) := h.symm
  have hearly : ¬ millis < -8334601228800000 := by omega
  have hlate : ¬ 8210266876799999 < millis := by omega
  have hseconds : millis / 1000 = t.seconds := by omega
  have hrest : (millis % 1000).toNat * 1000000 = t.nanos := by omega
  rw [ofMillis, dif_neg hearly, dif_neg hlate]
  simp only [hseconds, hrest]

theorem ofMillis_toMillis (t : Instant) : ofMillis t.toMillis = t.inMillis := by
  have hnanos := t.nanos_lt
  unfold inMillis
  split
  · exact ofMillis_eq (by dsimp only; omega) (Nat.mul_mod_left ..) (by dsimp only [toMillis]; omega)
  · split
    · -- the milliseconds of a leap second are counted from the next second on
      exact ofMillis_eq (by dsimp only; omega) (Nat.mul_mod_left ..) (by dsimp only [toMillis]; omega)
    · have hhigh := t.le_latest
      have hparts : t.toMillis = t.seconds * 1000 + (t.nanos / 1000000 : Nat) := rfl
      have hearly : ¬ t.toMillis < -8334601228800000 := by omega
      have hlate : 8210266876799999 < t.toMillis := by omega
      rw [ofMillis, dif_neg hearly, dif_pos hlate]

/-- A number of milliseconds fits into the integers of the wire. -/
theorem toInt_ofInt_toMillis (t : Instant) : (Int64.ofInt t.toMillis).toInt = t.toMillis := by
  obtain ⟨hlow, hhigh⟩ := t.toMillis_range
  exact Int64.toInt_ofInt_of_le (by omega) (by omega)

end Instant

/-- The scalar with an instant as a clock of whole milliseconds shows it. -/
def Scalar.inMillis : Scalar → Scalar
  | instant t => .instant t.inMillis
  | v => v

namespace Codec

theorem ofWire_toWire (v : Scalar) : ofWire (toWire v) = .ok v.inMillis := by
  cases v with
  | instant t => rw [toWire, ofWire, t.toInt_ofInt_toMillis, t.ofMillis_toMillis, Scalar.inMillis]
  | uuid id =>
    rw [toWire, ofWire, ofBinary, if_pos rfl, id.ofList?_data]
    rfl
  | _ => rfl

end Codec

namespace Session

theorem decode_exact (pairs : List (String × Scalar)) :
    decode .exact (pairs.map fun p => (p.1, Codec.toWire p.2)) = .ok (pairs.map fun p => (p.1, p.2.inMillis)) := by
  induction pairs with
  | nil => rfl
  | cons p rest ih =>
    have hv : Codec.exact.decode (Codec.toWire p.2) = .ok p.2.inMillis := Codec.ofWire_toWire p.2
    rw [List.map_cons, decode, hv, ih]
    rfl

end Session

/-! ### Rows -/

namespace Dict

variable {α β : Type}

/-- The primary key in front of the other entries. -/
def idFirst (d : Dict α) : Dict α := d.filter (·.1 = idField) ++ d.filter (·.1 ≠ idField)

theorem idFirst_map (f : α → β) (d : Dict α) :
    idFirst (d.map fun p => (p.1, f p.2)) = (idFirst d).map fun p => (p.1, f p.2) := by
  rw [idFirst, idFirst, List.map_append, List.filter_map, List.filter_map]
  rfl

end Dict

/-- A document that was stored is picked up by its fields, with the primary key in front. One that the store made
is passed over. -/
theorem pick_storedAs {fresh : Nat → ObjectId} {low high : Nat} {d row : Document} (hd : Dict.keys d ≠ [])
    (h : Store.StoredAs fresh low high d row) : pick (Dict.keys d) row = Dict.idFirst d := by
  have hkey : ∀ p ∈ d, (Dict.keys d).contains p.1 = true := fun p hp =>
    List.contains_iff_mem.2 (List.mem_map.2 ⟨p, hp, rfl⟩)
  have hpick : pick (Dict.keys d) d = Dict.idFirst d := by
    rw [pick, if_neg hd, Dict.idFirst]
    refine congrArg₂ (· ++ ·) (List.filter_congr fun p hp => ?_) (List.filter_congr fun p hp => ?_)
    · rw [hkey p hp, Bool.and_true]
    · rw [hkey p hp, Bool.and_true]
  rcases h with ⟨-, rfl⟩ | ⟨hno, n, -, -, rfl⟩
  · exact hpick
  · have hid : idField ∉ Dict.keys d := by
      intro hm
      rw [Dict.contains, (Dict.get?_isSome d idField).2 hm] at hno
      simp at hno
    rw [← hpick, pick, pick, if_neg hd, if_neg hd, List.filter_cons, List.filter_cons]
    simp [hid]

namespace Direct

variable {d : Dialect} {t : Table} {columns : List Column} {fields : List String} {selections : List Selection}

/-- A select list of columns is planned, and names their fields. -/
theorem projections_columns (h : List.Forall₂ (fun c field => fieldOf d (some t) c = .ok ⟨field⟩) columns fields)
    (hs : selections.map Selection.expression = columns.map Expression.column) (found : List Projection) :
    (∃ selected, projections d (some t) found selections = .ok selected) ∧ selectedFields d t selections = fields := by
  induction h generalizing selections found with
  | nil =>
    obtain rfl := List.map_eq_nil_iff.1 hs
    exact ⟨⟨found, rfl⟩, rfl⟩
  | @cons c field columns fields hc _ ih =>
    obtain ⟨s, rest, rfl, hcolumn, hrest⟩ := List.map_eq_cons_iff.1 hs
    have hp : projection d (some t) s = .ok ⟨⟨field⟩, true⟩ := by
      obtain ⟨o, ho, hfield⟩ := bind_eq_ok.1 hc
      cases o with
      | value term => simp [Operand.columnField] at hfield
      | field path =>
        obtain rfl := Except.ok.inj hfield
        rw [projection, hcolumn, columnFieldOf, Dialect.operand, ho]
        rfl
    have hf : d.field? t s.expression = some field := (projection_eq_ok hp).2.field?_eq
    obtain ⟨⟨selected, hsel⟩, hfields⟩ := ih hrest (addProjection found ⟨⟨field⟩, true⟩)
    refine ⟨⟨selected, ?_⟩, ?_⟩
    · rw [projections, hp]
      exact hsel
    · rw [selectedFields, List.filterMap_cons, hf]
      exact congrArg (field :: ·) hfields

end Direct

namespace Session

/-- A stored row decodes to the scalars it was made of. -/
theorem decode_stored {fresh : Nat → ObjectId} {low high : Nat} {fields : List String} {vs : List Scalar}
    {row : Document} (hl : vs.length = fields.length) (hne : fields ≠ [])
    (h : Store.StoredAs fresh low high (fields.zip (vs.map Codec.toWire)) row) :
    decode .exact (pick fields row) = .ok (Dict.idFirst (fields.zip (vs.map Scalar.inMillis))) := by
  have hkeys : Dict.keys (fields.zip (vs.map Codec.toWire)) = fields :=
    List.map_fst_zip (by rw [List.length_map, hl])
  have hpick := pick_storedAs (by rwa [hkeys]) h
  rw [hkeys] at hpick
  have hzip {β : Type} (f : Scalar → β) : fields.zip (vs.map f) = (fields.zip vs).map fun p => (p.1, f p.2) :=
    List.zip_map_right
  rw [hpick, hzip, hzip, Dict.idFirst_map, Dict.idFirst_map, decode_exact]

/-- After an INSERT that was carried out, a SELECT of its columns has a row for each document from before and
behind these a row for each row inserted, which decodes to the scalars of that under the fields of the columns,
the primary key in front. Instants are rounded down to whole milliseconds, and those in a leap second are then as far
into the second that follows it. -/
theorem insert_reads_back {session after : Session} {s : Insert} {parameters : List Scalar} {n : Nat}
    (hs : session.store.Distinct) (hc : session.dialect.codec = .exact) (hcolumns : s.columns ≠ [])
    (h : session.execute (.insert s) parameters = (.ok (.affected n), after)) :
    ∃ rows collection fields scalars, s.source = .rows rows ∧ n = rows.length ∧
      session.dialect.catalog.collectionOf s.table.name = .ok collection ∧
      List.Forall₂ (fun c field => session.dialect.catalog.fieldOf s.table.name c.name = .ok field) s.columns fields ∧
      List.Forall₂ (List.Forall₂ fun e v => e.scalar? parameters = some v) rows scalars ∧
      ∀ selections, selections.map Selection.expression = s.columns.map Expression.column → ∃ found,
        after.query (.select (.bare s.table selections)) [] =
          (.ok ((session.store.documents collection).map (pick fields) ++ found), after) ∧
        List.Forall₂ (fun row vs => decode session.dialect.codec row =
          .ok (Dict.idFirst (fields.zip (vs.map Scalar.inMillis)))) found scalars := by
  obtain ⟨i, rows, store, hn, rfl, hstored, happended⟩ := execute_insert hc h
  have hfields : List.Forall₂ (fun c field => session.dialect.catalog.fieldOf s.table.name c.name = .ok field)
      s.columns i.fields := i.fields_eq.imp fun c field hf => Direct.fieldOf_eq_ok hf
  have hdistinct := i.distinct_documents hs hstored happended
  refine ⟨i.rows, i.collection, i.fields, i.scalars, i.source_eq, hn, i.collection_eq, hfields, i.scalars_eq,
    fun selections hsel => ?_⟩
  obtain ⟨⟨selected, hselected⟩, hnames⟩ := Direct.projections_columns i.fields_eq hsel []
  refine ⟨rows.map (pick i.fields), ?_, ?_⟩
  · rw [query_all { session with store } i.collection_eq hselected fun row hrow => (hdistinct row hrow).keys, hnames]
    simp only [happended, List.map_append]
  · have hne : i.fields ≠ [] := fun he => hcolumns (List.length_eq_zero_iff.1 (by rw [hfields.length_eq, he]; rfl))
    rw [Insert.Content.documents, List.forall₂_map_left_iff] at hstored
    rw [List.forall₂_map_left_iff, hc]
    have hwide := (List.forall₂_and_left _ _).2 ⟨i.widths, hstored⟩
    exact (hwide.imp fun vs row h => decode_stored h.1 hne h.2).flip

end Session

theorem Session.insert_reads_back_guests : ∃ after found,
    people.execute (.insert .guests) [.instant .arrival, .string "k"] =
      (.ok (.affected 2), after) ∧
    after.query (.select (.bare ⟨"people", some "p"⟩
      [⟨.column ⟨some "p", "age"⟩, none⟩, ⟨.column ⟨none, "id"⟩, some "x"⟩])) [] = (.ok ([[("_id", .int32 1), ("years", .int32 40)], [("_id", .int32 2), ("years", .int64 17)],
        [("_id", .int32 3), ("years", .int32 18)]] ++ found), after) ∧
    found.map (decode .exact) = [.ok [("_id", .int32 4), ("years", .instant (.ofMillis 1001))],
      .ok [("_id", .string "k"), ("years", .int64 5)]] := by
  obtain ⟨after, hrun⟩ := execute_guests
  obtain ⟨rows, collection, fields, scalars, hsource, -, hcoll, hfields, hscalars, hback⟩ :=
    insert_reads_back Store.distinct_people rfl (by simp [Insert.guests]) hrun
  obtain ⟨rfl, rfl, rfl⟩ := Insert.guests_eq hsource hcoll hfields hscalars
  obtain ⟨found, hquery, hfound⟩ :=
    hback [⟨.column ⟨some "p", "age"⟩, none⟩, ⟨.column ⟨none, "id"⟩, some "x"⟩] rfl
  refine ⟨_, found, hrun, hquery, ?_⟩
  rcases hfound with _ | ⟨hfirst, _ | ⟨hsecond, _ | _⟩⟩
  have hexact : people.dialect.codec = .exact := rfl
  rw [hexact] at hfirst hsecond
  rw [List.map_cons, List.map_cons, hfirst, hsecond]
  rfl

/-- In the middle of the leap second at the end of the year 2016, `2016-12-31T23:59:60.5Z`. -/
def Instant.leapSecond : Instant where
  seconds := 1483228799
  nanos := 1500000000

/-- As far into the second that follows it, `2017-01-01T00:00:00.5Z`. -/
def Instant.afterLeap : Instant where
  seconds := 1483228800
  nanos := 500000000

/-- `INSERT INTO people (age) VALUES (?)` -/
def Insert.visit : Insert where
  table := ⟨"people", none⟩
  columns := [⟨none, "age"⟩]
  source := .rows [[.parameter 0]]

/-- An instant of whole milliseconds in a leap second does not read back as it was inserted, but a second later. -/
theorem Session.leap_second_reads_back_later : ∃ after,
    people.execute (.insert .visit) [.instant .leapSecond] = (.ok (.affected 1), after) ∧
    after.query (.select (.bare ⟨"people", none⟩ [⟨.column ⟨none, "age"⟩, none⟩])) [] =
      (.ok [[("years", .int32 40)], [("years", .int64 17)], [("years", .int32 18)],
        [("years", .dateTime 1483228800500)]], after) ∧
    decode .exact [("years", .dateTime 1483228800500)] = .ok [("years", .instant .afterLeap)] ∧
    Instant.leapSecond.nanos % 1000000 = 0 ∧ Instant.leapSecond ≠ Instant.afterLeap := by
  have hplan : Direct.command .people (.insert .visit) = .ok (.insert "persons" [[("years", .placeholder 0)]]) := rfl
  have hv : encodeAll Dialect.people.codec [.instant .leapSecond] = .ok [.dateTime (Int64.ofInt 1483228800500)] := rfl
  have he : people.execute (.insert .visit) _ = people.run _ :=
    execute_of_render (render_eq_ok.2 ⟨_, _, hplan, hv, by simp [Command.positions, Term.positions, Term.fieldPositions], rfl⟩)
  have hrun := he.trans (Prod.ext (y := (.ok (.affected 1), _)) rfl rfl)
  refine ⟨_, hrun, ?_, rfl, rfl, by decide⟩
  rfl

end RelDoc
