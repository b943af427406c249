import RelDoc.Proofs.Rendered

/-!
# What DELETE and UPDATE change

A rendered DELETE, and a rendered UPDATE whose restriction does not pin the primary key, never fail: they
reach exactly the rows that the restriction takes in the old store (`Session.execute_mutation`). Which rows
are meant is decided before any is touched (`marks_every`), so a change cannot make its own restriction
true or false. `assign` is the change of a row: known fields get their new value where they stand and new
ones go last. Nothing but the documents of the one collection changes (`Store.Changed`).
-/

namespace RelDoc

open Outcome

/-! ### Assigning fields -/

/-- The row with new values for the named fields: in place where the row has the field, and otherwise last, in
the order given. -/
def assign (pairs row : Document) : Document :=
  row.map (fun p => (p.1, (Dict.get? pairs p.1).getD p.2)) ++ pairs.filter fun p => !Dict.contains row p.1

namespace Dict

variable {α : Type} {d : Dict α} {k : String} {a : α}

theorem insert_of_mem (hn : (keys d).Nodup) (hk : k ∈ keys d) (a : α) :
    insert d k a = d.map fun p => (p.1, if p.1 = k then a else p.2) := by
  induction d with
  | nil => simp [keys] at hk
  | cons p rest ih =>
    obtain ⟨j, b⟩ := p
    obtain ⟨hj, hr⟩ := List.nodup_cons.1 hn
    rw [insert, List.map_cons]
    by_cases he : j = k
    · subst he
      have hrest : rest.map (fun p => (p.1, if p.1 = j then a else p.2)) = rest := by
        refine (List.map_congr_left fun p hp => ?_).trans (List.map_id rest)
        have hne : p.1 ≠ j := fun h => hj (List.mem_map.2 ⟨p, hp, h⟩)
        simp [hne]
      simp [hrest]
    · have hk' : k ∈ keys rest := (List.mem_cons.1 hk).resolve_left (Ne.symm he)
      simp [he, ih hr hk']

end Dict

theorem assign_cons {k : String} {v : Value} {pairs row : Document} (hk : k ∉ Dict.keys pairs)
    (hrow : (Dict.keys row).Nodup) : assign ((k, v) :: pairs) row = assign pairs (Dict.insert row k v) := by
  have hnone : Dict.get? pairs k = none := Dict.get?_eq_none hk
  have hne : ∀ p ∈ pairs, p.1 ≠ k := fun p hp he => hk (List.mem_map.2 ⟨p, hp, he⟩)
  by_cases hm : k ∈ Dict.keys row
  · have hc : Dict.contains row k = true := Dict.contains_iff.2 hm
    rw [assign, assign, Dict.insert_of_mem hrow hm, List.map_map, List.filter_cons]
    simp only [hc, Bool.not_true, Bool.false_eq_true, if_false]
    refine congrArg₂ (· ++ ·) (List.map_congr_left fun p _ => ?_) (List.filter_congr fun p hp => ?_)
    · simp only [Function.comp_apply, Dict.get?_cons]
      by_cases he : p.1 = k
      · simp [he, hnone]
      · simp [he, Ne.symm he]
    · -- inserting another name does not change which names of `pairs` the row has
      rw [← Dict.insert_of_mem hrow hm, Dict.contains, Dict.contains, Dict.get?_insert_of_ne (Ne.symm (hne p hp))]
  · have hc : Dict.contains row k = false := Bool.eq_false_iff.2 fun h => hm (Dict.contains_iff.1 h)
    have hrest : pairs.filter (fun p => !Dict.contains (Dict.insert row k v) p.1) =
        pairs.filter (fun p => !Dict.contains row p.1) := by
      refine List.filter_congr fun p hp => ?_
      rw [Dict.contains, Dict.contains, Dict.get?_insert_of_ne (Ne.symm (hne p hp))]
    rw [assign, assign, hrest, Dict.insert_of_not_mem hm, List.map_append, List.filter_cons, List.append_assoc]
    simp only [hc, Bool.not_false, if_true]
    refine congrArg₂ (· ++ ·) (List.map_congr_left fun p hp => ?_) ?_
    · have he : k ≠ p.1 := fun he => hm (List.mem_map.2 ⟨p, hp, he.symm⟩)
      rw [Dict.get?_cons, if_neg he]
    · rw [List.map_singleton, hnone]
      rfl

/-- Inserting pairs one after another assigns them. -/
theorem insertAll_eq_assign {pairs row : Document} (hk : (Dict.keys pairs).Nodup) (hrow : (Dict.keys row).Nodup) :
    Dict.insertAll row pairs = assign pairs row := by
  induction pairs generalizing row with
  | nil =>
    rw [assign, List.filter_nil, List.append_nil]
    exact (List.map_id row).symm
  | cons p rest ih =>
    obtain ⟨k, v⟩ := p
    obtain ⟨hn, hr⟩ := List.nodup_cons.1 hk
    rw [assign_cons hn hrow]
    exact ih hr (Dict.nodup_keys_insert hrow k v)

/-! ### Fields of an update -/

namespace FieldUpdate

variable {us : List FieldUpdate}

theorem keys_fill (σ : Nat → Value) (us : List FieldUpdate) :
    Dict.keys (us.map fun u => (u.field.text, u.value.fill σ)) = us.map fun u => u.field.text := by
  rw [Dict.keys, List.map_map]
  rfl

theorem nodup_texts (h : checkFields .set (us.map FieldUpdate.field) = .ok ()) :
    (us.map fun u => u.field.text).Nodup := by
  have hn := nodup_of_checkFields h
  rwa [List.map_map] at hn

theorem idField_not_mem (h : ∀ u ∈ us, u.field.isId = false) : idField ∉ us.map fun u => u.field.text := by
  intro hm
  obtain ⟨u, hu, he⟩ := List.mem_map.1 hm
  have hid := h u hu
  rw [FieldPath.isId, decide_eq_false_iff_not] at hid
  exact hid he

end FieldUpdate

/-! ### Marked documents -/

variable {filter : Document} {hit : Document → Bool} {rows : List Document}

theorem marks_every (h : ∀ row ∈ rows, row.satisfies filter = .ok (hit row)) :
    marks filter .every rows = .ok (rows.map hit) := by
  induction rows with
  | nil => rfl
  | cons row rest ih =>
    rw [marks, h row (List.mem_cons_self ..), ok_bind, ih fun r hr => h r (List.mem_cons_of_mem _ hr)]
    simp

namespace Store

theorem setMarked_map (set : Document) (hit : Document → Bool) (rows : List Document) :
    setMarked set (rows.map hit) rows = rows.map fun row => if hit row then Dict.insertAll row set else row := by
  induction rows with
  | nil => rfl
  | cons row rest ih => rw [List.map_cons, List.map_cons, setMarked, ih]

theorem dropMarked_map (hit : Document → Bool) (rows : List Document) :
    dropMarked (rows.map hit) rows = rows.filter fun row => !hit row := by
  induction rows with
  | nil => rfl
  | cons row rest ih =>
    rw [List.map_cons, dropMarked, ih, List.filter_cons]
    cases hit row <;> rfl

theorem count_map (hit : Document → Bool) (rows : List Document) : (rows.map hit).count true = rows.countP hit := by
  rw [List.count_eq_countP, List.countP_map]
  congr 1
  funext row
  cases h : hit row <;> simp [h]

/-! ### Specifications -/

variable {σ : Nat → Value} {f : Filter} {us : List FieldUpdate}

theorem ofDocument_deleteSpec : DeleteSpec.ofDocument (deleteSpec σ f) = .ok ⟨f.fill σ, .every⟩ := rfl

theorem ofDocument_updateSpec (h : ∀ u ∈ us, u.field.isId = false) (multi : Bool) :
    UpdateSpec.ofDocument (updateSpec σ f us multi) =
      .ok ⟨f.fill σ, us.map fun u => (u.field.text, u.value.fill σ), if multi then .every else .first⟩ := by
  have hc : Dict.contains (us.map fun u => (u.field.text, u.value.fill σ)) idField = false := by
    refine Bool.eq_false_iff.2 fun hc => FieldUpdate.idField_not_mem h ?_
    rw [← FieldUpdate.keys_fill σ us]
    exact Dict.contains_iff.1 hc
  have hq : subDocument (updateSpec σ f us multi) "q" = .ok (f.fill σ) := rfl
  have hu : subDocument (updateSpec σ f us multi) "u" =
      .ok [(FieldClause.set.token, .document (us.map fun u => (u.field.text, u.value.fill σ)))] := rfl
  have hs (d : Document) : subDocument [(FieldClause.set.token, .document d)] "$set" = .ok d := rfl
  have hm : Dict.get? (updateSpec σ f us multi) "multi" = some (.boolean multi) := rfl
  rw [UpdateSpec.ofDocument, hq, ok_bind, hu, ok_bind, hs, ok_bind, hm]
  simp only [hc]
  cases multi <;> rfl

/-! ### Changes of one collection -/

/-- The documents of the collection, if there is one, are changed by `f`. Everything else is as before, and no
collection is opened. -/
structure Changed (before after : Store) (collection : String) (f : List Document → List Document) : Prop where
  issued : after.issued = before.issued
  keys : Dict.keys after.collections = Dict.keys before.collections
  get? : ∀ name, Dict.get? after.collections name =
    if name = collection then (Dict.get? before.collections name).map f else Dict.get? before.collections name

theorem changed_withDocuments {store : Store} {collection : String} {ds : List Document}
    (h : Dict.get? store.collections collection = some ds) (f : List Document → List Document) :
    Changed store (store.withDocuments collection (f ds)) collection f where
  issued := rfl
  keys := by
    have hm : collection ∈ Dict.keys store.collections := (Dict.get?_isSome _ _).1 (by rw [h]; rfl)
    rw [withDocuments, Dict.keys_insert, if_pos hm]
  get? name := by
    rw [withDocuments, Dict.get?_insert]
    by_cases hn : collection = name
    · subst hn
      rw [if_pos rfl, if_pos rfl, h]
      rfl
    · rw [if_neg hn, if_neg (Ne.symm hn)]

theorem changed_missing {store : Store} {collection : String} (h : Dict.get? store.collections collection = none)
    (f : List Document → List Document) : Changed store store collection f where
  issued := rfl
  keys := rfl
  get? name := by
    by_cases hn : name = collection
    · rw [if_pos hn, hn, h]
      rfl
    · rw [if_neg hn]

/-- A command answers with the number of rows hit and changes the rows by `f`. -/
def Affects (store : Store) (collection : String) (hit : Document → Bool) (f : List Document → List Document)
    (outcome : Except Error Answer × Store) : Prop :=
  outcome.1 = .ok (.affected ((store.documents collection).countP hit)) ∧ Changed store outcome.2 collection f

/-- One specification that does not fail, whatever documents there are. -/
theorem changed_change {store : Store} {collection : String} {spec : Document}
    {step : Document → List Document → Except Error (Nat × List Document)} {count : Nat → Nat}
    {f : List Document → List Document} (hcount : count 0 = 0)
    (hstep : ∀ ds, Dict.get? store.collections collection = some ds →
      step spec ds = .ok (count (ds.countP hit), f ds)) :
    (store.change step collection [spec]).1 = .ok (.affected (count ((store.documents collection).countP hit))) ∧
      Changed store (store.change step collection [spec]).2 collection f := by
  rw [change_single, documents]
  cases hg : Dict.get? store.collections collection with
  | none =>
    refine ⟨?_, changed_missing hg f⟩
    rw [Option.getD_none, List.countP_nil, hcount]
  | some ds =>
    simp only [hstep ds hg]
    exact ⟨rfl, changed_withDocuments hg f⟩

theorem affects_change {store : Store} {collection : String} {spec : Document}
    {step : Document → List Document → Except Error (Nat × List Document)} {f : List Document → List Document}
    (hstep : ∀ ds, Dict.get? store.collections collection = some ds → step spec ds = .ok (ds.countP hit, f ds)) :
    Affects store collection hit f (store.change step collection [spec]) :=
  changed_change (show id 0 = 0 from rfl) hstep

theorem deleteOnce_eq (h : ∀ row ∈ rows, row.satisfies (f.fill σ) = .ok (hit row)) :
    deleteOnce (deleteSpec σ f) rows = .ok (rows.countP hit, rows.filter fun row => !hit row) := by
  rw [deleteOnce, ofDocument_deleteSpec, ok_bind, marks_every h, ok_bind, count_map, dropMarked_map]
  rfl

theorem updateOnce_eq (hid : ∀ u ∈ us, u.field.isId = false)
    (h : ∀ row ∈ rows, row.satisfies (f.fill σ) = .ok (hit row)) : updateOnce (updateSpec σ f us true) rows =
      .ok (rows.countP hit, rows.map fun row =>
        if hit row then Dict.insertAll row (us.map fun u => (u.field.text, u.value.fill σ)) else row) := by
  rw [updateOnce, ofDocument_updateSpec hid, ok_bind, if_pos rfl, marks_every h, ok_bind, count_map, setMarked_map]
  rfl

/-- What a DELETE does whose filter takes the rows that `hit` holds for. -/
theorem affects_delete {store : Store} {collection : String} (fresh : Nat → ObjectId)
    (h : ∀ row ∈ store.documents collection, row.satisfies (f.fill σ) = .ok (hit row)) :
    store.Affects collection hit (List.filter fun row => !hit row)
      (store.execute fresh ((Command.delete collection f).fill σ)) := by
  rw [execute_of_asks (asks_delete σ collection f)]
  refine affects_change fun ds hg => deleteOnce_eq fun row hr => h row ?_
  rwa [documents, hg]

/-- What an UPDATE of every match does whose filter takes the rows that `hit` holds for. -/
theorem affects_update {store : Store} {collection : String} (fresh : Nat → ObjectId)
    (hid : ∀ u ∈ us, u.field.isId = false) (hk : (us.map fun u => u.field.text).Nodup) (hpin : f.pinsId = false)
    (hrows : ∀ row ∈ store.documents collection, (Dict.keys row).Nodup)
    (h : ∀ row ∈ store.documents collection, row.satisfies (f.fill σ) = .ok (hit row)) :
    store.Affects collection hit
      (List.map fun row =>
        if hit row then assign (us.map fun u => (u.field.text, u.value.fill σ)) row else row)
      (store.execute fresh ((Command.update collection f us).fill σ)) := by
  have hkeys : (Dict.keys (us.map fun u => (u.field.text, u.value.fill σ))).Nodup := by
    rw [FieldUpdate.keys_fill]
    exact hk
  rw [execute_of_asks (asks_update σ collection f us)]
  refine affects_change fun ds hg => ?_
  rw [documents, hg, Option.getD_some] at hrows h
  rw [hpin, Bool.not_false, updateOnce_eq hid h]
  refine congrArg (fun ds' => Except.ok (_, ds')) (List.map_congr_left fun row hr => ?_)
  rw [insertAll_eq_assign hkeys (hrows row hr)]

end Store

/-! ### Statements -/

/-- An UPDATE assigns no primary key. -/
theorem Direct.updates_others {d : Dialect} {t : Table} {assignments : List Assignment} {us : List FieldUpdate}
    (h : List.Forall₂ (fun a u => update d (some t) a = .ok u) assignments us) :
    ∀ u ∈ us, u.field.isId = false := by
  intro u hu
  obtain ⟨a, -, ha⟩ := forall₂_mem_right h hu
  exact (update_eq_ok ha).2.1

namespace Dialect

variable {d : Dialect} {σ : Nat → Value} {t : Table}

/-- The fields that an UPDATE assigns, with their values. -/
def assigned (d : Dialect) (t : Table) (σ : Nat → Value) (assignments : List Assignment) : Document :=
  assignments.filterMap fun a =>
    (d.field? t (.column a.column)).bind fun field => (d.constant? σ a.value).map fun v => (field, v)

theorem assigned_eq {assignments : List Assignment} {us : List FieldUpdate}
    (h : List.Forall₂ (fun a u => Direct.update d (some t) a = .ok u) assignments us) :
    d.assigned t σ assignments = us.map fun u => (u.field.text, u.value.fill σ) := by
  induction h with
  | nil => rfl
  | @cons a u as us hau _ ih =>
    obtain ⟨hf, -, hv⟩ := Direct.update_eq_ok hau
    have hfield : d.field? t (.column a.column) = some u.field.text := by
      rw [field?, hf]
      rfl
    rw [assigned, List.filterMap_cons, hfield, Option.bind_some, hv.constant?_eq, List.map_cons, ← ih]
    rfl

end Dialect

/-- A rendered DELETE removes exactly the rows that its restriction takes, and a rendered UPDATE that does not
pin the primary key assigns its fields in exactly those rows. Both answer with the number of the rows, and
neither fails. -/
theorem Session.execute_mutation {d : Dialect} (hp : d.catalog.Plain) (hc : d.codec.Distinct)
    {parameters : List Scalar} {command : Document} (fresh : Nat → ObjectId) {store : Store} (hs : store.Distinct) :
    (∀ s : Delete, render d (.delete s) parameters = .ok command →
      ∃ collection values, d.catalog.collectionOf s.table.name = .ok collection ∧
        encodeAll d.codec parameters = .ok values ∧
        store.Affects collection (fun row => d.takes s.table (valuesAt values) row s.restriction)
          (List.filter fun row => !d.takes s.table (valuesAt values) row s.restriction)
          (store.execute fresh command)) ∧
    (∀ (s : Update) (c : Command), d.commandOf (.update s) = .ok c → c.isSingle? = some false →
      render d (.update s) parameters = .ok command →
      ∃ collection values, d.catalog.collectionOf s.table.name = .ok collection ∧
        encodeAll d.codec parameters = .ok values ∧
        store.Affects collection (fun row => d.takes s.table (valuesAt values) row s.restriction)
          (List.map fun row => if d.takes s.table (valuesAt values) row s.restriction
            then assign (d.assigned s.table (valuesAt values) s.assignments) row else row)
          (store.execute fresh command)) := by
  constructor
  · intro s hr
    obtain ⟨c, values, hplan, hv, -, rfl⟩ := render_eq_ok.1 hr
    obtain ⟨collection, f, hcoll, hf, rfl⟩ := Direct.delete_eq_ok hplan
    have hσ := distinct_valuesAt (distinct_encodeAll hc hv)
    refine ⟨collection, values, hcoll, hv, Store.affects_delete fresh fun row hr => ?_⟩
    exact Dialect.satisfies_restriction hp hc hσ (hs.documents row hr) hf
  · intro s c hplan hsingle hr
    rw [d.commandOf_eq] at hplan
    obtain ⟨c', values, hplan', hv, -, rfl⟩ := render_eq_ok.1 hr
    obtain rfl := Except.ok.inj (hplan.symm.trans hplan')
    obtain ⟨collection, f, us, hcoll, hf, hu, hk, rfl⟩ := Direct.updateCommand_eq_ok hplan
    have hpin : f.pinsId = false := Option.some.inj hsingle
    have hσ := distinct_valuesAt (distinct_encodeAll hc hv)
    refine ⟨collection, values, hcoll, hv, ?_⟩
    rw [Dialect.assigned_eq hu]
    have hnodup := FieldUpdate.nodup_texts hk
    refine Store.affects_update fresh (Direct.updates_others hu) hnodup hpin (fun row hr => (hs.documents row hr).keys)
      fun row hr => ?_
    exact Dialect.satisfies_restriction hp hc hσ (hs.documents row hr) hf

/-- `DELETE FROM people WHERE NOT age >= ?` -/
def Delete.minors : Delete where
  table := ⟨"people", none⟩
  restriction := some (.negated (.comparison .greaterOrEqual (.column ⟨none, "age"⟩) (.parameter 0)))

/-- `UPDATE people SET name = 'minor', age = ? WHERE age < 18` -/
def Update.minors : Update where
  table := ⟨"people", none⟩
  assignments := [⟨⟨none, "name"⟩, .literal (.string "minor")⟩, ⟨⟨none, "age"⟩, .parameter 0⟩]
  restriction := some (.comparison .less (.column ⟨none, "age"⟩) (.literal (.int32 18)))

theorem Session.execute_mutation_minors :
    (∃ command, render .people (.delete .minors) [.int32 18] = .ok command ∧
      (Store.people.execute Store.zeros command).1 = .ok (.affected 1)) ∧
    (∃ command, render .people (.update .minors) [.int32 18] = .ok command ∧
      (Store.people.execute Store.zeros command).1 = .ok (.affected 1) ∧
      Dict.get? (Store.people.execute Store.zeros command).2.collections "persons" =
        some [[("years", .int32 40), ("_id", .int32 1)],
          [("_id", .int32 2), ("years", .int32 18), ("name", .string "minor")],
          [("_id", .int32 3), ("years", .int32 18)]]) := by
  have hv : encodeAll Dialect.people.codec [.int32 18] = .ok [.int32 18] := rfl
  have hcoll : Dialect.people.catalog.collectionOf "people" = .ok "persons" := rfl
  constructor
  · have hplan : Direct.command .people (.delete .minors) = .ok (.delete "persons"
        (.combination .nor [.comparison ⟨"years"⟩ .gte (.placeholder 0)])) := rfl
    have hr := render_eq_ok.2 ⟨_, [.int32 18], hplan, hv,
      by simp [Command.positions, Filter.positions, Filter.listPositions, Term.positions], rfl⟩
    obtain ⟨collection, values, hc, hv', hcount, -⟩ :=
      (execute_mutation Dialect.plain_people Codec.distinct_exact Store.zeros Store.distinct_people).1 _ hr
    obtain rfl := Except.ok.inj (hv.symm.trans hv')
    obtain rfl := Except.ok.inj (hcoll.symm.trans hc)
    refine ⟨_, hr, hcount.trans (congrArg (fun n => Except.ok (Answer.affected n)) ?_)⟩
    decide +kernel
  · have hplan : Direct.command .people (.update .minors) = .ok (.update "persons"
        (.comparison ⟨"years"⟩ .lt (.literal (.int32 18)))
        [⟨⟨"name"⟩, .literal (.string "minor")⟩, ⟨⟨"years"⟩, .placeholder 0⟩]) := rfl
    have hr := render_eq_ok.2 ⟨_, [.int32 18], hplan, hv,
      by simp [Command.positions, Filter.positions, Term.positions], rfl⟩
    obtain ⟨collection, values, hc, hv', hcount, hchanged⟩ :=
      (execute_mutation Dialect.plain_people Codec.distinct_exact Store.zeros Store.distinct_people).2 _ _
        ((Dialect.people.commandOf_eq _).trans hplan) rfl hr
    obtain rfl := Except.ok.inj (hv.symm.trans hv')
    obtain rfl := Except.ok.inj (hcoll.symm.trans hc)
    refine ⟨_, hr, hcount.trans (congrArg (fun n => Except.ok (Answer.affected n)) ?_),
      (hchanged.get? "persons").trans ?_⟩
    · decide +kernel
    · rfl

end RelDoc
