import RelDoc.Proofs.Execution

/-!
# What a failing command leaves behind

A command that fails leaves the collections as they were, except for two ways in which it has already
written. An insertion opens its collection before it looks at the primary keys (`Store.Opens`). And an
update or a delete carries out its specifications one by one, so if one of them fails, then what those
before it changed stays (`Store.Halfway`). `Store.execute_failed` says what is left in each of the cases.
-/

namespace RelDoc

namespace Store

variable {fresh : Nat → ObjectId} {store : Store} {command : Document} {collection : String}
  {rows : List Document} {e : Error}

/-- The command inserts into a collection that is not there. -/
def Opens (store : Store) (command : Document) (collection : String) : Prop :=
  Dict.get? store.collections collection = none ∧ ∃ given, Asks command .insert collection given

/-- The command changes a collection to the rows by the first of its specifications, and fails at the next. -/
inductive Halfway (store : Store) (command : Document) (collection : String) (rows : List Document) : Prop where
  | intro {verb : Verb} {step : Document → List Document → Except Error (Nat × List Document)}
    {done more before : List Document} {spec : Document} {n : Nat} {e : Error}
    (changes : verb.step? = some step) (asks : Asks command verb collection (done ++ spec :: more))
    (present : Dict.get? store.collections collection = some before)
    (carried : applySpecs step 0 before done = (.ok n, rows)) (changed : rows ≠ before)
    (fails : step spec rows = .error e)

theorem collections_of_refused {given : List Document} (hf : (store.accept fresh collection given).1 = .error e) :
    (store.accept fresh collection given).2.collections =
      Dict.insert store.collections collection (store.documents collection) := by
  unfold accept at hf ⊢
  dsimp only at hf ⊢
  split at hf
  · rfl
  · simp at hf

theorem collections_of_opens (h : Opens store command collection) (hf : (store.execute fresh command).1 = .error e) :
    (store.execute fresh command).2.collections = store.collections ++ [(collection, [])] := by
  obtain ⟨hnone, given, ha⟩ := h
  rw [execute_of_asks ha] at hf ⊢
  have hleft := collections_of_refused hf
  rw [documents, hnone] at hleft
  exact hleft.trans (Dict.insert_of_get?_eq_none hnone [])

theorem collections_of_halfway (fresh : Nat → ObjectId) (h : Halfway store command collection rows) :
    (store.execute fresh command).2.collections = Dict.insert store.collections collection rows := by
  obtain ⟨changes, asks, present, carried, -, fails⟩ := h
  rw [execute_of_asks asks, Verb.run_of_step changes, change, present]
  dsimp only
  rw [applySpecs_append carried, applySpecs, fails]
  rfl

theorem collections_of_change {verb : Verb} {step : Document → List Document → Except Error (Nat × List Document)}
    {specs : List Document} (hs : verb.step? = some step) (ha : Asks command verb collection specs)
    (hf : (store.change step collection specs).1 = .error e) (hno : ∀ rows, ¬ Halfway store command collection rows) :
    (store.change step collection specs).2.collections = store.collections := by
  obtain ⟨before, rows, hg, happly, hleft⟩ := change_eq_error hf
  obtain ⟨done, spec, more, n, rfl, hdone, hfails⟩ := applySpecs_eq_error happly
  -- had the specifications before the failing one changed anything, the command would have stopped halfway
  have hsame : rows = before := by
    by_contra hne
    exact hno rows ⟨hs, ha, hg, hdone, hne, hfails⟩
  rw [hleft, hsame]
  exact Dict.insert_of_get?_eq_some hg

theorem collections_of_failure (hf : (store.execute fresh command).1 = .error e)
    (hopens : ∀ c, ¬ Opens store command c) (hhalf : ∀ c rows, ¬ Halfway store command c rows) :
    (store.execute fresh command).2.collections = store.collections := by
  rcases asks_or_refused command with ⟨verb, collection, given, ha⟩ | ⟨e, -, he⟩
  · rw [execute_of_asks ha] at hf ⊢
    cases verb with
    | insert =>
      obtain ⟨before, hg⟩ := Option.ne_none_iff_exists'.1 fun hnone => hopens collection ⟨hnone, given, ha⟩
      have hleft := collections_of_refused hf
      rw [documents, hg] at hleft
      exact hleft.trans (Dict.insert_of_get?_eq_some hg)
    | update => exact collections_of_change rfl ha hf (hhalf collection)
    | delete => exact collections_of_change rfl ha hf (hhalf collection)
    | aggregate => rfl
  · rw [he]

/-- A failing command leaves the collections as they were exactly if it neither opens one nor has carried out
specifications that changed one. The collection it opens is empty; the one it changed has the rows that the
specifications before the failing one led to. -/
theorem execute_failed (h : (store.execute fresh command).1 = .error e) :
    ((store.execute fresh command).2.collections = store.collections ↔
      ∀ c, ¬ Opens store command c ∧ ∀ rows, ¬ Halfway store command c rows) ∧
    (∀ c, Opens store command c →
      (store.execute fresh command).2.collections = store.collections ++ [(c, [])]) ∧
    ∀ c rows, Halfway store command c rows →
      (store.execute fresh command).2.collections = Dict.insert store.collections c rows := by
  refine ⟨⟨fun hsame c => ⟨fun hopens => ?_, fun rows hhalf => ?_⟩, fun hno => ?_⟩,
    fun c hopens => collections_of_opens hopens h, fun c rows hhalf => collections_of_halfway fresh hhalf⟩
  · rw [collections_of_opens hopens h] at hsame
    simp at hsame
  · -- the rows that are left would be those from before
    have hleft := collections_of_halfway fresh hhalf
    obtain ⟨-, -, present, -, changed, -⟩ := hhalf
    rw [← hsame, hleft, Dict.get?_insert_self] at present
    exact changed (Option.some.inj present)
  · exact collections_of_failure h (fun c => (hno c).1) fun c => (hno c).2

def books : Store where
  collections := [("books", [[("_id", .int32 1), ("copies", .int32 1)]])]

/-- The specification that gives all books a filter takes `n` copies. -/
def setCopies (filter : Document) (n : Int32) : Document :=
  [("q", .document filter), ("u", .document [("$set", .document [("copies", .int32 n)])]),
    ("multi", .boolean true)]

/-- Two updates, where the filter of the second has an operator that the store does not know. -/
def twoUpdates : Document :=
  [("update", .string "books"), ("updates", .array [
    .document (setCopies [("_id", .document [("$eq", .int32 1)])] 2),
    .document (setCopies [("copies", .document [("$in", .array [.int32 2])])] 3)])]

/-- An insertion of two books with one primary key. -/
def twoBooks : Document :=
  [("insert", .string "books"), ("documents", .array [.document [("_id", .int32 1)], .document [("_id", .int32 1)]])]

/-- Both failures leave other collections than they found. -/
theorem execute_failed_twoUpdates :
    (books.execute zeros twoUpdates).1 = .error (.store (.unknownOperator "$in")) ∧
    Halfway books twoUpdates "books" [[("_id", .int32 1), ("copies", .int32 2)]] ∧
    (books.execute zeros twoUpdates).2.collections ≠ books.collections ∧
    (({} : Store).execute zeros twoBooks).1 = .error (.store (.duplicateKey "books" (.int32 1))) ∧
    Opens {} twoBooks "books" ∧
    (({} : Store).execute zeros twoBooks).2.collections ≠ [] := by
  have hupdates : (books.execute zeros twoUpdates).1 = .error (.store (.unknownOperator "$in")) := rfl
  have hinsert : (({} : Store).execute zeros twoBooks).1 = .error (.store (.duplicateKey "books" (.int32 1))) := rfl
  have hopens : Opens {} twoBooks "books" := ⟨rfl, [[("_id", .int32 1)], [("_id", .int32 1)]], _, rfl, rfl⟩
  have hhalfway : Halfway books twoUpdates "books" [[("_id", .int32 1), ("copies", .int32 2)]] := by
    have asks : Asks twoUpdates .update "books"
        ([setCopies [("_id", .document [("$eq", .int32 1)])] 2] ++
          setCopies [("copies", .document [("$in", .array [.int32 2])])] 3 :: []) := ⟨_, rfl, rfl⟩
    refine ⟨rfl, asks, rfl, rfl, fun h => ?_, rfl⟩
    simp at h
  refine ⟨hupdates, hhalfway, fun hsame => ?_, hinsert, hopens, fun hsame => ?_⟩
  · exact (((execute_failed hupdates).1.1 hsame "books").2 _) hhalfway
  · exact ((execute_failed hinsert).1.1 hsame "books").1 hopens

/-- The first update stays although the second fails, and the refused insertion leaves an empty collection. -/
theorem execute_fails_after_writing :
    (books.execute zeros twoUpdates).1 = .error (.store (.unknownOperator "$in")) ∧
    (books.execute zeros twoUpdates).2.collections = [("books", [[("_id", .int32 1), ("copies", .int32 2)]])] ∧
    (books.execute zeros twoUpdates).2.collections ≠ books.collections ∧
    (({} : Store).execute zeros twoBooks).1 = .error (.store (.duplicateKey "books" (.int32 1))) ∧
    (({} : Store).execute zeros twoBooks).2.collections = [("books", [])] := by
  have hleft : (books.execute zeros twoUpdates).2.collections =
      [("books", [[("_id", .int32 1), ("copies", .int32 2)]])] := rfl
  refine ⟨rfl, hleft, fun hsame => ?_, rfl, rfl⟩
  rw [hleft, books] at hsame
  simp at hsame

end Store
end RelDoc
