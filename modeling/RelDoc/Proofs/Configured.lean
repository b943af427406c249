import RelDoc.Mapping.Config
import RelDoc.Proofs.Equivalence
import RelDoc.Proofs.Outcome
import RelDoc.Proofs.Spelling

/-!
# A valid configuration is looked up faithfully

A configuration is valid if nothing in it is blank and it maps every table once (`Config.Valid`); this is what
`Config.validate` checks, a table at a time (`Config.validate_eq_ok`).

Where no table is mapped twice, no mapping hides another. So a catalog answers for each of its tables as that
table's own mapping says (`Catalog.Follows`), has no answer for any other table (`Catalog.Refuses`), and does not
depend on the order of the mappings (`Catalog.ofMappings_perm`).
-/

namespace RelDoc

open Outcome

namespace Config

variable {seen : List String} {mappings : List TableMapping} {m : TableMapping} {c : Config}

/-- Nothing is blank, and no table is mapped twice. -/
structure Valid (c : Config) : Prop where
  connection : isBlank c.connection = false
  database : isBlank c.database = false
  tables : (c.tables.map TableMapping.table).Nodup
  collections : ∀ m ∈ c.tables, isBlank m.collection = false
  fields : ∀ m ∈ c.tables, ∀ p ∈ m.columns, isBlank p.2 = false

theorem checkMapping_eq_ok :
    checkMapping m = .ok () ↔ isBlank m.collection = false ∧ ∀ p ∈ m.columns, isBlank p.2 = false := by
  rw [checkMapping]
  split
  · next hblank => simp [hblank]
  · next hblank =>
    split
    · next column field hfind =>
      have hfield : isBlank field = true := by simpa using List.find?_some hfind
      have hmem := List.mem_of_find?_eq_some hfind
      refine iff_of_false (by simp) fun h => ?_
      simpa [hfield] using h.2 _ hmem
    · next hfind =>
      rw [List.find?_eq_none] at hfind
      simpa [hblank] using hfind

/-- The tables that were seen are those before the ones still to be checked. -/
theorem checkTables_eq_ok : checkTables seen mappings = .ok () ↔
    (mappings.map TableMapping.table).Nodup ∧ (∀ m ∈ mappings, m.table ∉ seen) ∧
      ∀ m ∈ mappings, checkMapping m = .ok () := by
  induction mappings generalizing seen with
  | nil => simp [checkTables]
  | cons m rest ih =>
    rw [checkTables]
    split
    · next hseen => simp [hseen]
    · next hseen =>
      rw [bind_eq_ok, List.map_cons, List.nodup_cons, List.forall_mem_cons, List.forall_mem_cons]
      simp only [ih, List.mem_cons, List.mem_map, not_or, not_exists, not_and]
      constructor
      · rintro ⟨_, hm, hnodup, hnew, hrest⟩
        exact ⟨⟨fun m' hm' => (hnew m' hm').1, hnodup⟩, ⟨hseen, fun m' hm' => (hnew m' hm').2⟩, hm, hrest⟩
      · rintro ⟨⟨hnew, hnodup⟩, ⟨-, hold⟩, hm, hrest⟩
        exact ⟨(), hm, hnodup, fun m' hm' => ⟨hnew m' hm', hold m' hm'⟩, hrest⟩

theorem validate_eq_ok : c.validate = .ok () ↔ c.Valid := by
  rw [validate]
  split
  · next hconnection => exact iff_of_false (by simp) fun h => by simp [h.connection] at hconnection
  · next hconnection =>
    split
    · next hdatabase => exact iff_of_false (by simp) fun h => by simp [h.database] at hdatabase
    · next hdatabase =>
      simp only [Bool.not_eq_true] at hconnection hdatabase
      simp only [checkTables_eq_ok, checkMapping_eq_ok]
      constructor
      · rintro ⟨hnodup, -, hchecked⟩
        exact ⟨hconnection, hdatabase, hnodup, fun m hm => (hchecked m hm).1, fun m hm => (hchecked m hm).2⟩
      · intro h
        exact ⟨h.tables, fun _ _ => List.not_mem_nil, fun m hm => ⟨h.collections m hm, h.fields m hm⟩⟩

theorem Valid.perm (h : c.Valid) {tables : List TableMapping} (hp : tables.Perm c.tables) :
    ({ c with tables } : Config).Valid where
  connection := h.connection
  database := h.database
  tables := (hp.map TableMapping.table).nodup_iff.2 h.tables
  collections m hm := h.collections m (hp.mem_iff.1 hm)
  fields m hm := h.fields m (hp.mem_iff.1 hm)

end Config

/-! ### Lookups -/

/-- The step fails with an error of the category. -/
def Outcome.FailsAs {α : Type} (category : ErrorCategory) (x : Except Error α) : Prop :=
  ∃ e, x = .error e ∧ e.category = category

namespace Catalog

variable {mappings : List TableMapping} {m : TableMapping} {table : String}

/-- The catalog says of a table what the mapping says. The identifier column is looked for first, so it may stand
among the mapped columns too. -/
structure Follows (catalog : Catalog) (m : TableMapping) : Prop where
  collectionOf : catalog.collectionOf m.table = .ok m.collection
  fieldOf_identifier : ∀ column, m.idColumn = some column → catalog.fieldOf m.table column = .ok "_id"
  fieldOf_mapped : ∀ column field, m.idColumn ≠ some column → Dict.get? m.columns column = some field →
    catalog.fieldOf m.table column = .ok field
  fieldOf_unmapped : ∀ column, m.idColumn ≠ some column → Dict.get? m.columns column = none →
    FailsAs .metadata (catalog.fieldOf m.table column)
  isIdentifier : ∀ column, catalog.isIdentifier m.table column = .ok (decide (m.idColumn = some column))

/-- The catalog has nothing to say of a table. -/
structure Refuses (catalog : Catalog) (table : String) : Prop where
  collectionOf : FailsAs .metadata (catalog.collectionOf table)
  fieldOf : ∀ column, FailsAs .metadata (catalog.fieldOf table column)
  isIdentifier : ∀ column, FailsAs .metadata (catalog.isIdentifier table column)

theorem mem_of_get?_index (h : Dict.get? (index mappings) table = some m) : m ∈ mappings ∧ m.table = table := by
  obtain ⟨m', hm', he⟩ := List.mem_map.1 (Dict.mem_of_mem_ofPairs (Dict.mem_of_get?_eq_some h))
  obtain ⟨htable, rfl⟩ := Prod.mk.inj he
  exact ⟨hm', htable⟩

/-- Without repeated tables every mapping is found under its table. -/
theorem get?_index (hn : (mappings.map TableMapping.table).Nodup) :
    Dict.get? (index mappings) table = some m ↔ m ∈ mappings ∧ m.table = table := by
  refine ⟨mem_of_get?_index, ?_⟩
  rintro ⟨hm, rfl⟩
  have hkeys : Dict.keys (mappings.map fun m => (m.table, m)) = mappings.map TableMapping.table := by
    rw [Dict.keys, List.map_map]
    rfl
  rw [← hkeys] at hn
  rw [index, Dict.ofPairs_eq_self hn]
  exact Dict.get?_of_mem hn (List.mem_map.2 ⟨m, hm, rfl⟩)

theorem mappingOf_index (hn : (mappings.map TableMapping.table).Nodup) (hm : m ∈ mappings) :
    mappingOf (index mappings) m.table = .ok m := by
  rw [mappingOf, (get?_index hn).2 ⟨hm, rfl⟩]

theorem mappingOf_index_eq_error (h : ∀ m ∈ mappings, m.table ≠ table) :
    mappingOf (index mappings) table = .error (.unmappedTable table) := by
  rw [mappingOf]
  split
  · next m hg =>
    obtain ⟨hm, htable⟩ := mem_of_get?_index hg
    exact absurd htable (h m hm)
  · rfl

theorem follows_ofMappings (hn : (mappings.map TableMapping.table).Nodup) (hm : m ∈ mappings) :
    (ofMappings mappings).Follows m := by
  have hfield (column : String) : (ofMappings mappings).fieldOf m.table column = m.fieldOf column := by
    simp only [ofMappings, mappingOf_index hn hm, ok_bind]
  refine ⟨?_, fun column hid => ?_, fun column field hid hg => ?_, fun column hid hg => ?_, fun column => ?_⟩
  · simp only [ofMappings, mappingOf_index hn hm, ok_bind, pure_eq_ok]
  · rw [hfield, TableMapping.fieldOf, if_pos hid]
    rfl
  · rw [hfield, TableMapping.fieldOf, if_neg hid, hg]
  · rw [hfield, TableMapping.fieldOf, if_neg hid, hg]
    exact ⟨_, rfl, rfl⟩
  · simp only [ofMappings, mappingOf_index hn hm, ok_bind, pure_eq_ok]

theorem refuses_ofMappings (h : ∀ m ∈ mappings, m.table ≠ table) : (ofMappings mappings).Refuses table := by
  refine ⟨⟨.unmappedTable table, ?_, rfl⟩, fun column => ⟨.unmappedTable table, ?_, rfl⟩,
    fun column => ⟨.unmappedTable table, ?_, rfl⟩⟩ <;>
  simp only [ofMappings, mappingOf_index_eq_error h, error_bind]

/-- The order of the mappings makes no difference. -/
theorem ofMappings_perm {mappings' : List TableMapping} (hn : (mappings.map TableMapping.table).Nodup)
    (hp : mappings'.Perm mappings) : ofMappings mappings' = ofMappings mappings := by
  have hn' : (mappings'.map TableMapping.table).Nodup := (hp.map TableMapping.table).nodup_iff.2 hn
  have hget (table : String) : Dict.get? (index mappings') table = Dict.get? (index mappings) table := by
    refine Option.ext fun m => ?_
    rw [get?_index hn', get?_index hn, hp.mem_iff]
  have hmapping : mappingOf (index mappings') = mappingOf (index mappings) := by
    funext table
    rw [mappingOf, mappingOf, hget]
  simp only [ofMappings, hmapping]

end Catalog

/-- Exactly the valid configurations pass. The catalog of one that passes answers for every table that is listed as
its mapping says, and for no other table; listed in another order the tables pass again and give the same catalog. -/
theorem Config.validate_catalog (c : Config) : (c.validate = .ok () ↔ c.Valid) ∧
    (c.validate = .ok () → (∀ m ∈ c.tables, c.catalog.Follows m) ∧
      (∀ table, (∀ m ∈ c.tables, m.table ≠ table) → c.catalog.Refuses table) ∧
      ∀ tables, tables.Perm c.tables → ({ c with tables } : Config).validate = .ok () ∧
        ({ c with tables } : Config).catalog = c.catalog) := by
  refine ⟨validate_eq_ok, fun h => ?_⟩
  have hvalid := validate_eq_ok.1 h
  exact ⟨fun m hm => Catalog.follows_ofMappings hvalid.tables hm, fun table ht => Catalog.refuses_ofMappings ht,
    fun tables hp => ⟨validate_eq_ok.2 (hvalid.perm hp), Catalog.ofMappings_perm hvalid.tables hp⟩⟩

/-- People and their pets. The identifier column of the people is mapped to a field of its own as well. -/
def Config.town : Config where
  connection := "mongodb://localhost"
  database := "town"
  tables :=
    [{ table := "people", collection := "persons", idColumn := some "id",
       columns := [("id", "number"), ("age", "years")] },
     { table := "pet", collection := "pets", columns := [("age", "months")] }]

theorem Config.validate_catalog_town : town.validate = .ok () ∧
    town.catalog.fieldOf "people" "id" = .ok "_id" ∧ town.catalog.fieldOf "people" "age" = .ok "years" ∧
    FailsAs .metadata (town.catalog.fieldOf "pet" "id") ∧ FailsAs .metadata (town.catalog.collectionOf "shop") ∧
    ({ town with tables := town.tables.reverse } : Config).catalog = town.catalog := by
  have hvalid : town.validate = .ok () := by rfl
  obtain ⟨hfollows, hrefuses, hperm⟩ := (validate_catalog town).2 hvalid
  have hpeople := hfollows _ (List.mem_cons_self ..)
  have hpet := hfollows _ (List.mem_cons_of_mem _ (List.mem_cons_self ..))
  refine ⟨hvalid, hpeople.fieldOf_identifier "id" rfl, hpeople.fieldOf_mapped "age" "years" (by decide) rfl,
    hpet.fieldOf_unmapped "id" (by decide) rfl, (hrefuses "shop" (by decide)).collectionOf,
    (hperm _ (List.reverse_perm _)).2⟩

end RelDoc
