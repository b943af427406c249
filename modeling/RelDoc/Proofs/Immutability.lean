import RelDoc.Proofs.Identity

/-!
# Primary keys under an UPDATE

No update changes a primary key: a specification that would assign the key is refused, and any other leaves the keys of
its rows alone. So whatever a store is asked to update, the keys of all its collections stay (`Store.ids_execute`), one
specification after another.

A planned UPDATE is never refused for that reason. Planning refuses a column that the catalog reports as the identifier
and a column that is stored as the primary key, which need not be the same one, and what is left to go wrong in
a rendered update is its filter (`Store.failsOnly_updateOnce`, `Dialect.update_keeps_ids`).
-/

namespace RelDoc

open Outcome

/-! ### Errors of filters -/

/-- The errors of testing a filter: something else than filters under a combination, and an unknown operator. -/
inductive Error.OfFilter : Error → Prop
  | clauses (key : String) : OfFilter (.store (.clauses key))
  | operator (token : String) : OfFilter (.store (.unknownOperator token))

namespace Document

variable {d : Document}

theorem failsOnly_testOperators (v : Option Value) (operators : List (String × Value)) :
    FailsOnly Error.OfFilter (testOperators v operators) := by
  induction operators with
  | nil => exact .ok true
  | cons entry rest ih =>
    obtain ⟨token, operand⟩ := entry
    rw [testOperators]
    split
    · exact .error (.operator token)
    · split
      · exact ih
      · exact .ok false

theorem failsOnly_testField (path : String) (condition : Value) :
    FailsOnly Error.OfFilter (d.testField path condition) := by
  unfold testField
  dsimp only
  split
  · split
    · exact failsOnly_testOperators _ _
    · exact .ok _
  · exact .ok _

mutual
theorem failsOnly_satisfies : ∀ filter : List (String × Value), FailsOnly Error.OfFilter (d.satisfies filter)
  | [] => by
    rw [satisfies]
    exact .ok true
  | (key, condition) :: rest => by
    rw [satisfies]
    refine (failsOnly_satisfiesEntry key condition).bind fun hit => ?_
    split
    · exact failsOnly_satisfies rest
    · exact .ok false

theorem failsOnly_satisfiesEntry (key : String) (condition : Value) :
    FailsOnly Error.OfFilter (d.satisfiesEntry key condition) := by
  rw [satisfiesEntry]
  cases Combinator.ofToken? key with
  | none =>
    dsimp only
    split
    · exact .error (.operator key)
    · exact failsOnly_testField key condition
  | some combinator =>
    cases condition with
    | array items =>
      dsimp only
      split
      · cases combinator with
        | and => exact failsOnly_satisfiesAll items
        | or => exact failsOnly_satisfiesAny items
        | nor => exact (failsOnly_satisfiesAny items).bind fun hit => .ok _
      · exact .error (.clauses key)
    | _ => exact .error (.clauses key)

theorem failsOnly_satisfiesAll : ∀ items : List Value, FailsOnly Error.OfFilter (d.satisfiesAll items)
  | [] => by simp [satisfiesAll, FailsOnly.ok]
  | item :: rest => by
    cases item with
    | document f =>
      rw [satisfiesAll]
      refine (failsOnly_satisfies f).bind fun hit => ?_
      split
      · exact failsOnly_satisfiesAll rest
      · exact .ok false
    | _ => simp [satisfiesAll, FailsOnly.ok]

theorem failsOnly_satisfiesAny : ∀ items : List Value, FailsOnly Error.OfFilter (d.satisfiesAny items)
  | [] => by simp [satisfiesAny, FailsOnly.ok]
  | item :: rest => by
    cases item with
    | document f =>
      rw [satisfiesAny]
      refine (failsOnly_satisfies f).bind fun hit => ?_
      split
      · exact .ok true
      · exact failsOnly_satisfiesAny rest
    | _ => simp [satisfiesAny, FailsOnly.ok]
end

end Document

theorem failsOnly_marks (filter : Document) (extent : Extent) (rows : List Document) :
    FailsOnly Error.OfFilter (marks filter extent rows) := by
  induction rows with
  | nil => exact .ok []
  | cons row rest ih =>
    rw [marks]
    refine (Document.failsOnly_satisfies filter).bind fun hit => ?_
    split
    · exact .ok _
    · exact ih.bind fun more => .ok (hit :: more)

/-! ### Updates of a store -/

namespace Store

/-- The primary keys of every collection. -/
def ids (store : Store) : Dict (List (Option Value)) := store.collections.map fun p => (p.1, rowIds p.2)

variable {fresh : Nat → ObjectId} {store : Store} {command : Document} {collection : String}
  {rows after : List Document} {specs : List Document}

/-- The specifications of an update keep the primary keys of the rows, up to the one that fails and if none does. -/
theorem rowIds_applySpecs (total : Nat) (rows specs : List Document) :
    rowIds (applySpecs updateOnce total rows specs).2 = rowIds rows := by
  induction specs generalizing total rows with
  | nil => rfl
  | cons spec rest ih =>
    rw [applySpecs]
    split
    · rfl
    · next n after hstep => rw [ih (total + n) after, rowIds_updateOnce hstep]

theorem ids_withDocuments (hg : Dict.get? store.collections collection = some rows)
    (h : rowIds after = rowIds rows) : (store.withDocuments collection after).ids = store.ids := by
  obtain ⟨collections, issued⟩ := store
  dsimp only at hg
  simp only [ids, withDocuments]
  induction collections with
  | nil => cases hg
  | cons p rest ih =>
    obtain ⟨name, ds⟩ := p
    rw [Dict.get?_cons] at hg
    rw [Dict.insert]
    split at hg
    · next hn =>
      obtain rfl := Option.some.inj hg
      rw [if_pos hn, List.map_cons, List.map_cons, h]
    · next hn => rw [if_neg hn, List.map_cons, List.map_cons, ih hg]

/-- No update changes a primary key of any collection, also one that fails half-way. -/
theorem ids_execute (h : Asks command .update collection specs) : (store.execute fresh command).2.ids = store.ids := by
  rw [execute_of_asks h, Verb.run_of_step rfl, change]
  cases hg : Dict.get? store.collections collection with
  | none => rfl
  | some rows => exact ids_withDocuments hg (rowIds_applySpecs 0 rows specs)

variable {σ : Nat → Value} {f : Filter} {us : List FieldUpdate}

theorem failsOnly_updateOnce (hid : ∀ u ∈ us, u.field.isId = false) (multi : Bool) (rows : List Document) :
    FailsOnly Error.OfFilter (updateOnce (updateSpec σ f us multi) rows) := by
  rw [updateOnce_eq_marks hid]
  exact (failsOnly_marks _ _ rows).bind fun hits => .ok _

/-- An update that assigns other fields than the primary key fails with its filter or not at all. -/
theorem failsOnly_execute (hid : ∀ u ∈ us, u.field.isId = false) :
    FailsOnly Error.OfFilter (store.execute fresh ((Command.update collection f us).fill σ)).1 := by
  rw [execute_of_asks (asks_update σ collection f us), Verb.run_of_step rfl, change_single]
  cases Dict.get? store.collections collection with
  | none => exact .ok _
  | some rows =>
    dsimp only
    split
    · next e he => exact .error (failsOnly_updateOnce hid _ rows e he)
    · exact .ok _

end Store

/-! ### Planned updates -/

/-- A column that the catalog reports as the identifier is not assigned, wherever it is stored. -/
theorem Direct.isIdentifier_of_update {d : Dialect} {t : Table} {a : Assignment} {u : FieldUpdate}
    (h : update d (some t) a = .ok u) : d.catalog.isIdentifier t.name a.column.name = .ok false := by
  obtain ⟨field, -, h⟩ := bind_eq_ok.1 h
  obtain ⟨identifier, hi, h⟩ := bind_eq_ok.1 h
  cases identifier with
  | false => exact hi
  | true => simp at h

/-- An UPDATE that is planned assigns no column that the catalog reports as the identifier and no field that is the
primary key. The fields that it sets are those of its columns, in order, and differ. So whatever values are bound and
whatever the store, the command is not refused for the primary key, and leaves the primary keys of all collections
alone. -/
theorem Dialect.update_keeps_ids {d : Dialect} {s : Update} {c : Command} (h : d.commandOf (.update s) = .ok c) :
    ∃ names : List String,
      List.Forall₂ (fun a name => d.catalog.isIdentifier s.table.name a.column.name = .ok false ∧
        d.catalog.fieldOf s.table.name a.column.name = .ok name) s.assignments names ∧
      names.Nodup ∧ idField ∉ names ∧
      ∀ values command, c.bind values = .ok command →
        (∃ collection q set multi, Dict.keys set = names ∧
          command = [("update", .string collection), ("updates", .array [.document
            [("q", .document q), ("u", .document [("$set", .document set)]), ("multi", .boolean multi)]])]) ∧
        ∀ (fresh : Nat → ObjectId) (store : Store),
          (store.execute fresh command).1 ≠ .error (.store .immutableId) ∧
          (store.execute fresh command).2.ids = store.ids := by
  rw [d.commandOf_eq] at h
  have hwell := Direct.wellFormed_command h
  obtain ⟨collection, f, us, -, -, hu, hk, rfl⟩ := Direct.updateCommand_eq_ok h
  have hid := Direct.updates_others hu
  refine ⟨us.map fun u => u.field.text, ?_, FieldUpdate.nodup_texts hk, FieldUpdate.idField_not_mem hid,
    fun values command hb => ?_⟩
  · rw [List.forall₂_map_right_iff]
    exact hu.imp fun a u ha => ⟨Direct.isIdentifier_of_update ha, (Direct.update_eq_ok ha).1⟩
  · obtain ⟨-, rfl⟩ := (Command.bind_eq_ok_iff hwell).1 hb
    refine ⟨⟨collection, _, _, _, FieldUpdate.keys_fill .., rfl⟩, fun fresh store => ⟨fun he => ?_, ?_⟩⟩
    · cases Store.failsOnly_execute hid _ he
    · exact Store.ids_execute (Store.asks_update (valuesAt values) collection f us)

/-- Books with the identifier column `isbn`, while it is the column `id` that is stored as the primary key. -/
def Dialect.books : Dialect where
  catalog :=
    { (Catalog.ofMappings
        [{ table := "book", collection := "books", idColumn := some "id",
           columns := [("isbn", "isbn"), ("title", "title"), ("published", "year")] }]) with
      isIdentifier := fun table column => .ok (table = "book" && column = "isbn") }
  codec := .exact

/-- `UPDATE book AS b SET b.title = ?, published = 1877 WHERE isbn = '978-1'` -/
def Update.retitled : Update where
  table := ⟨"book", some "b"⟩
  assignments := [⟨⟨some "b", "title"⟩, .parameter 0⟩, ⟨⟨none, "published"⟩, .literal (.int32 1877)⟩]
  restriction := some (.comparison .equal (.column ⟨none, "isbn"⟩) (.literal (.string "978-1")))

/-- The command of the update. -/
def Command.retitled : Command :=
  .update "books" (.comparison ⟨"isbn"⟩ .eq (.literal (.string "978-1")))
    [⟨⟨"title"⟩, .placeholder 0⟩, ⟨⟨"year"⟩, .literal (.int32 1877)⟩]

/-- Two books, of which the second has no primary key. -/
def Store.editions : Store where
  collections := [("books", [[("_id", .int32 1), ("isbn", .string "978-1")], [("isbn", .string "978-1")]])]

theorem Dialect.update_keeps_ids_books : books.commandOf (.update .retitled) = .ok .retitled ∧
    ["title", "year"].Nodup ∧ idField ∉ ["title", "year"] ∧
    ∃ command, Command.retitled.bind [.string "Anna Karenina"] = .ok command ∧
      (Store.editions.execute Store.zeros command).1 = .ok (.affected 2) ∧
      (Store.editions.execute Store.zeros command).2.ids = [("books", [some (.int32 1), none])] := by
  have hplan : books.commandOf (.update .retitled) = .ok .retitled := (books.commandOf_eq _).trans rfl
  have hwell : Command.retitled.WellFormed := Direct.wellFormed_command ((books.commandOf_eq _).symm.trans hplan)
  have hbind : Command.retitled.bind [.string "Anna Karenina"] =
      .ok (Command.retitled.fill (valuesAt [.string "Anna Karenina"])) := by
    refine (Command.bind_eq_ok_iff hwell).2 ⟨fun n => ?_, rfl⟩
    simp [Command.retitled, Command.positions, Filter.positions, Term.positions]
  obtain ⟨names, hnames, hnodup, hother, hrun⟩ := update_keeps_ids hplan
  obtain rfl : names = ["title", "year"] := by
    rcases hnames with _ | ⟨⟨-, htitle⟩, _ | ⟨⟨-, hyear⟩, ⟨⟩⟩⟩
    rw [← Except.ok.inj htitle, ← Except.ok.inj hyear]
  obtain ⟨-, hstore⟩ := hrun _ _ hbind
  exact ⟨hplan, hnodup, hother, _, hbind, rfl, (hstore Store.zeros Store.editions).2⟩

end RelDoc
