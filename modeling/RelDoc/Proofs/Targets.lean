import RelDoc.Proofs.Placement

/-!
# Which documents a filter reaches

A query keeps the documents that satisfy its filter (`Pipeline.filterRows`), and an update or delete marks them
and changes what is marked (`marks`). The two walks stop for different reasons, but on the same documents they fail
alike or decide alike (`marks_or_decides`): what a query finds is what a delete with its filter removes and an update
assigns to, and a mutation of one document has the first of them (`Store.selects_alike`). Marks are decided before
any document is changed, so they are a function of the documents as they stood (`targets`).
-/

namespace RelDoc

open Outcome

/-! ### Marks that count -/

/-- The first hit without those behind it. -/
def onlyFirst : List Bool → List Bool
  | [] => []
  | true :: rest => true :: rest.map fun _ => false
  | false :: rest => false :: onlyFirst rest

theorem count_onlyFirst (hits : List Bool) : (onlyFirst hits).count true = min 1 (hits.count true) := by
  induction hits with
  | nil => rfl
  | cons hit rest ih =>
    cases hit with
    | true =>
      have hnone : (rest.map fun _ => false).count true = 0 := by simp [List.count_eq_zero]
      rw [onlyFirst, List.count_cons_self, List.count_cons_self, hnone]
      omega
    | false => rw [onlyFirst, List.count_cons_of_ne (by decide), List.count_cons_of_ne (by decide), ih]

theorem getElem?_onlyFirst (hits : List Bool) (i : Nat) : (onlyFirst hits)[i]? = some true ↔
    hits[i]? = some true ∧ ∀ earlier ∈ hits.take i, earlier = false := by
  induction hits generalizing i with
  | nil => simp [onlyFirst]
  | cons hit rest ih =>
    cases i with
    | zero => cases hit <;> simp [onlyFirst]
    | succ i =>
      cases hit with
      | true => simp [onlyFirst, List.getElem?_replicate]
      | false => simp [onlyFirst, ih]

namespace Extent

/-- The hits that are meant. -/
def restrict : Extent → List Bool → List Bool
  | every, hits => hits
  | first, hits => onlyFirst hits

/-- How many are meant of so many hits. -/
def count : Extent → Nat → Nat
  | every, n => n
  | first, n => min 1 n

theorem count_zero (extent : Extent) : extent.count 0 = 0 := by cases extent <;> rfl

theorem count_restrict (extent : Extent) (hits : List Bool) :
    (extent.restrict hits).count true = extent.count (hits.count true) := by
  cases extent with
  | every => rfl
  | first => exact count_onlyFirst hits

/-- Every hit is meant, or the one that has no hit before it. -/
theorem getElem?_restrict (extent : Extent) (hits : List Bool) (i : Nat) : (extent.restrict hits)[i]? = some true ↔
    hits[i]? = some true ∧ (extent = first → ∀ earlier ∈ hits.take i, earlier = false) := by
  cases extent with
  | every => simp [restrict]
  | first => simpa [restrict] using getElem?_onlyFirst hits i

end Extent

/-- The documents that a walk with the filter marks, if it comes to its end. -/
def targets (query : Document) (extent : Extent) (rows : List Document) : List Bool :=
  extent.restrict (rows.map (Document.isHit query))

/-- The document at a place is one that the filter selects, and the first if the first only is meant. -/
def Targets (query : Document) (extent : Extent) (rows : List Document) (i : Nat) : Prop :=
  ∃ row, rows[i]? = some row ∧ Document.isHit query row = true ∧
    (extent = .first → ∀ earlier ∈ rows.take i, Document.isHit query earlier = false)

variable {query : Document} {extent : Extent} {rows : List Document}

theorem getElem?_targets {i : Nat} : (targets query extent rows)[i]? = some true ↔ Targets query extent rows i := by
  rw [targets, Extent.getElem?_restrict, List.getElem?_map, ← List.map_take, Option.map_eq_some_iff, Targets]
  simp only [List.forall_mem_map]
  constructor
  · rintro ⟨⟨row, hrow, hhit⟩, hearlier⟩
    exact ⟨row, hrow, hhit, hearlier⟩
  · rintro ⟨row, hrow, hhit, hearlier⟩
    exact ⟨⟨row, hrow, hhit⟩, hearlier⟩

instance (query : Document) (extent : Extent) (rows : List Document) (i : Nat) :
    Decidable (Targets query extent rows i) := decidable_of_iff _ getElem?_targets

theorem count_targets (query : Document) (extent : Extent) (rows : List Document) :
    (targets query extent rows).count true = extent.count (rows.countP (Document.isHit query)) := by
  rw [targets, Extent.count_restrict, Store.count_map]

/-- Nothing is said of the documents behind a first match, which a walk does not come to. -/
theorem eq_targets_of_marks {hits : List Bool} (h : marks query extent rows = .ok hits) :
    hits = targets query extent rows := by
  induction rows generalizing hits with
  | nil =>
    obtain rfl := Except.ok.inj h
    cases extent <;> rfl
  | cons row rest ih =>
    obtain ⟨hit, hhit, hstep⟩ := bind_eq_ok.1 h
    have hrow : Document.isHit query row = hit := Document.isHit_eq hhit
    rw [targets, List.map_cons, hrow]
    split at hstep
    · next hstop =>
      -- the walk stops here, and `onlyFirst` has no hit behind the first
      rw [Bool.and_eq_true, decide_eq_true_iff] at hstop
      obtain ⟨rfl, rfl⟩ := hstop
      obtain rfl := Except.ok.inj hstep
      rw [Extent.restrict, onlyFirst, List.map_map]
      rfl
    · next hgo =>
      obtain ⟨more, hmore, hstep⟩ := bind_eq_ok.1 hstep
      obtain rfl := Except.ok.inj hstep
      rw [ih hmore, targets]
      cases extent with
      | every => rfl
      | first =>
        obtain rfl : hit = false := by simpa using hgo
        rfl

theorem marks_of_decides (h : Document.Decides query rows) :
    marks query extent rows = .ok (targets query extent rows) := by
  suffices hok : ∃ hits, marks query extent rows = .ok hits by
    obtain ⟨hits, hhits⟩ := hok
    rw [hhits, eq_targets_of_marks hhits]
  induction rows with
  | nil => exact ⟨[], rfl⟩
  | cons row rest ih =>
    obtain ⟨hrow, hrest⟩ := List.forall_mem_cons.1 h
    obtain ⟨more, hmore⟩ := ih hrest
    rw [marks, hrow, ok_bind, hmore]
    split <;> exact ⟨_, rfl⟩

/-- A query and a walk that marks every match fail with one error, or the filter decides about every document. -/
theorem marks_or_decides (query : Document) (rows : List Document) :
    (∃ e, Pipeline.filterRows query rows = .error e ∧ marks query .every rows = .error e) ∨
      Document.Decides query rows := by
  induction rows with
  | nil => exact .inr fun _ h => absurd h List.not_mem_nil
  | cons row rest ih =>
    cases hrow : row.satisfies query with
    | error e => exact .inl ⟨e, by rw [Pipeline.filterRows, hrow]; rfl, by rw [marks, hrow]; rfl⟩
    | ok hit =>
      rcases ih with ⟨e, hfilter, hmarks⟩ | hrest
      · refine .inl ⟨e, ?_, ?_⟩
        · rw [Pipeline.filterRows, hrow, ok_bind, hfilter]
          rfl
        · rw [marks, hrow, ok_bind, if_neg (by simp), hmarks]
          rfl
      · exact .inr (hrest.cons hrow)

/-! ### Marked documents -/

namespace Store

variable {set : Document} {hit : Document → Bool}

theorem getElem?_setMarked (set : Document) (hits : List Bool) (rows : List Document) (i : Nat) :
    (setMarked set hits rows)[i]? =
      rows[i]?.map fun row => if hits[i]? = some true then Dict.insertAll row set else row := by
  induction hits generalizing rows i with
  | nil => simp [setMarked]
  | cons hit rest ih =>
    cases rows with
    | nil => simp [setMarked]
    | cons row more =>
      cases i with
      | zero => simp [setMarked]
      | succ i => simpa [setMarked] using ih more i

theorem length_setMarked (set : Document) (hits : List Bool) (rows : List Document) :
    (setMarked set hits rows).length = rows.length := by
  induction hits generalizing rows with
  | nil => rfl
  | cons hit rest ih =>
    cases rows with
    | nil => rfl
    | cons row more => simp [setMarked, ih]

theorem setMarked_first (set : Document) (hit : Document → Bool) (rows : List Document) :
    setMarked set (onlyFirst (rows.map hit)) rows =
      rows.modify (rows.findIdx hit) (Dict.insertAll · set) := by
  induction rows with
  | nil => rfl
  | cons row rest ih =>
    rw [List.map_cons, List.findIdx_cons]
    cases hit row with
    | true =>
      have hrest : setMarked set (List.replicate rest.length false) rest = rest := by
        simpa using setMarked_map set (fun _ => false) rest
      simp [onlyFirst, setMarked, hrest]
    | false => simp [onlyFirst, setMarked, ih]

theorem dropMarked_first (hit : Document → Bool) (rows : List Document) :
    dropMarked (onlyFirst (rows.map hit)) rows = rows.eraseIdx (rows.findIdx hit) := by
  induction rows with
  | nil => rfl
  | cons row rest ih =>
    rw [List.map_cons, List.findIdx_cons]
    cases hit row with
    | true =>
      have hrest : dropMarked (List.replicate rest.length false) rest = rest := by
        simpa using dropMarked_map (fun _ => false) rest
      simp [onlyFirst, dropMarked, hrest]
    | false => simp [onlyFirst, dropMarked, ih]

/-! ### One specification -/

variable {spec : Document}

theorem updateOnce_of_spec {u : UpdateSpec} (hu : UpdateSpec.ofDocument spec = .ok u) (rows : List Document) :
    updateOnce spec rows =
      (marks u.filter u.extent rows).map fun hits => (hits.count true, setMarked u.set hits rows) := by
  rw [updateOnce, hu, ok_bind]
  cases marks u.filter u.extent rows <;> rfl

theorem deleteOnce_of_spec {u : DeleteSpec} (hu : DeleteSpec.ofDocument spec = .ok u) (rows : List Document) :
    deleteOnce spec rows =
      (marks u.filter u.extent rows).map fun hits => (hits.count true, dropMarked hits rows) := by
  rw [deleteOnce, hu, ok_bind]
  cases marks u.filter u.extent rows <;> rfl

theorem updateOnce_eq_ok {n : Nat} {after : List Document} (h : updateOnce spec rows = .ok (n, after)) :
    ∃ u, UpdateSpec.ofDocument spec = .ok u ∧ n = u.extent.count (rows.countP (Document.isHit u.filter)) ∧
      after = setMarked u.set (targets u.filter u.extent rows) rows := by
  obtain ⟨u, hu, h⟩ := bind_eq_ok.1 h
  obtain ⟨hits, hhits, h⟩ := bind_eq_ok.1 h
  obtain rfl := eq_targets_of_marks hhits
  obtain ⟨rfl, rfl⟩ := Prod.mk.inj (Except.ok.inj h)
  exact ⟨u, hu, count_targets .., rfl⟩

/-! ### Commands with one filter -/

/-- The specification of a delete as it stands in a command. -/
def DeleteSpec.toDocument (d : DeleteSpec) : Document :=
  [("q", .document d.filter), ("limit", .int32 (if d.extent = .every then 0 else 1))]

theorem DeleteSpec.ofDocument_toDocument (d : DeleteSpec) : ofDocument d.toDocument = .ok d := by
  obtain ⟨filter, extent⟩ := d
  cases extent <;> rfl

/-- The specification of an update as it stands in a command. -/
def UpdateSpec.toDocument (u : UpdateSpec) : Document :=
  [("q", .document u.filter), ("u", .document [("$set", .document u.set)]), ("multi", .boolean (u.extent = .every))]

/-- Any fields can be assigned but the primary key. -/
theorem UpdateSpec.ofDocument_toDocument (u : UpdateSpec) (h : Dict.contains u.set idField = false) :
    ofDocument u.toDocument = .ok u := by
  obtain ⟨filter, set, extent⟩ := u
  have hq : subDocument (toDocument ⟨filter, set, extent⟩) "q" = .ok filter := rfl
  have hu : subDocument (toDocument ⟨filter, set, extent⟩) "u" = .ok [("$set", .document set)] := rfl
  have hs : subDocument [("$set", .document set)] "$set" = .ok set := rfl
  have hm : Dict.get? (toDocument ⟨filter, set, extent⟩) "multi" = some (.boolean (extent = .every)) := rfl
  rw [ofDocument, hq, ok_bind, hu, ok_bind, hs, ok_bind, hm]
  simp only [h]
  cases extent <;> rfl

/-- The command document for a verb. -/
def Verb.command (verb : Verb) (collection : String) (given : List Document) : Document :=
  [(verb.name, .string collection), (verb.key, .array (given.map Value.document))]

/-- The command finds the documents of the collection that the filter selects. -/
def Finds (command : Document) (collection : String) (query : Document) : Prop :=
  ∃ more, Asks command .aggregate collection [("$match", .document query) :: more]

/-- The command deletes documents of the collection that the filter selects. -/
def Deletes (command : Document) (collection : String) (query : Document) (extent : Extent) : Prop :=
  ∃ spec, Asks command .delete collection [spec] ∧ DeleteSpec.ofDocument spec = .ok ⟨query, extent⟩

/-- The command assigns fields in documents of the collection that the filter selects. -/
def Updates (command : Document) (collection : String) (query set : Document) (extent : Extent) : Prop :=
  ∃ spec, Asks command .update collection [spec] ∧ UpdateSpec.ofDocument spec = .ok ⟨query, set, extent⟩

variable {fresh : Nat → ObjectId} {store : Store} {collection : String} {command : Document}

theorem finds_command (collection : String) (query : Document) :
    Finds (Verb.aggregate.command collection [[("$match", .document query)]]) collection query :=
  ⟨[], asks_pair ..⟩

theorem deletes_command (collection : String) (query : Document) (extent : Extent) :
    Deletes (Verb.delete.command collection [DeleteSpec.toDocument ⟨query, extent⟩]) collection query extent :=
  ⟨_, asks_pair .., DeleteSpec.ofDocument_toDocument _⟩

theorem updates_command (collection : String) (query : Document) {set : Document} (extent : Extent)
    (h : Dict.contains set idField = false) :
    Updates (Verb.update.command collection [UpdateSpec.toDocument ⟨query, set, extent⟩]) collection query set extent :=
  ⟨_, asks_pair .., UpdateSpec.ofDocument_toDocument _ h⟩

/-- A command answers with a count and changes the documents of the collection by `f`, and nothing else. -/
def Carries (store : Store) (collection : String) (count : Nat) (f : List Document → List Document)
    (outcome : Except Error Answer × Store) : Prop :=
  outcome.1 = .ok (.affected count) ∧ Changed store outcome.2 collection f

theorem Changed.congr {after : Store} {f g : List Document → List Document} (h : Changed store after collection f)
    (hfg : f (store.documents collection) = g (store.documents collection)) : Changed store after collection g := by
  refine ⟨h.issued, h.keys, fun name => ?_⟩
  rw [h.get?]
  split
  · next hname =>
    subst hname
    rw [Store.documents] at hfg
    cases hds : Dict.get? store.collections name with
    | none => rfl
    | some ds =>
      rw [hds] at hfg
      exact congrArg some hfg
  · rfl

theorem Carries.congr {n m : Nat} {f g : List Document → List Document} {outcome : Except Error Answer × Store}
    (h : store.Carries collection n f outcome) (hn : n = m)
    (hfg : f (store.documents collection) = g (store.documents collection)) :
    store.Carries collection m g outcome :=
  ⟨hn ▸ h.1, h.2.congr hfg⟩

theorem Finds.execute_eq (h : Finds command collection query) (fresh : Nat → ObjectId) (store : Store) :
    store.execute fresh command =
      ((Pipeline.filterRows query (store.documents collection)).map Answer.rows, store) := by
  obtain ⟨more, hask⟩ := h
  have hrun (rows : List Document) : Pipeline.run rows [("$match", .document query) :: more] =
      Pipeline.filterRows query rows := by
    rw [Pipeline.run]
    cases hf : Pipeline.runStage "$match" (.document query) rows <;> exact hf.symm
  rw [execute_of_asks hask, Verb.run, hrun]

/-- The command carries one specification out, which marks documents of the collection and changes them by `f`. -/
def Mutates (command : Document) (collection : String) (query : Document) (extent : Extent)
    (f : List Bool → List Document → List Document) : Prop :=
  ∃ verb step spec, Asks command verb collection [spec] ∧ verb.step? = some step ∧
    ∀ rows, step spec rows = (marks query extent rows).map fun hits => (hits.count true, f hits rows)

theorem Deletes.mutates (h : Deletes command collection query extent) :
    Mutates command collection query extent dropMarked := by
  obtain ⟨spec, hask, hspec⟩ := h
  exact ⟨.delete, deleteOnce, spec, hask, rfl, deleteOnce_of_spec hspec⟩

theorem Updates.mutates (h : Updates command collection query set extent) :
    Mutates command collection query extent (setMarked set) := by
  obtain ⟨spec, hask, hspec⟩ := h
  exact ⟨.update, updateOnce, spec, hask, rfl, updateOnce_of_spec hspec⟩

theorem change_of_error {step : Document → List Document → Except Error (Nat × List Document)} {ds : List Document}
    {e : Error} (hg : Dict.get? store.collections collection = some ds) (h : step spec ds = .error e) :
    store.change step collection [spec] = (.error e, store) := by
  simp only [change_single, hg, h]
  rw [withDocuments, Dict.insert_of_get?_eq_some hg]

namespace Mutates

variable {f : List Bool → List Document → List Document}

theorem fails {ds : List Document} {e : Error} (h : Mutates command collection query extent f)
    (hg : Dict.get? store.collections collection = some ds) (hmarks : marks query extent ds = .error e) :
    store.execute fresh command = (.error e, store) := by
  obtain ⟨verb, step, spec, hask, hverb, hstep⟩ := h
  have herror : step spec ds = .error e := by
    rw [hstep, hmarks]
    rfl
  rw [execute_of_asks hask, Verb.run_of_step hverb, change_of_error hg herror]

/-- A walk that comes to its end decides the answer and the change. -/
theorem carries (h : Mutates command collection query extent f)
    (hmarks : ∀ ds, Dict.get? store.collections collection = some ds → ∃ hits, marks query extent ds = .ok hits) :
    store.Carries collection (extent.count ((store.documents collection).countP (Document.isHit query)))
      (fun rows => f (targets query extent rows) rows) (store.execute fresh command) := by
  obtain ⟨verb, step, spec, hask, hverb, hstep⟩ := h
  rw [execute_of_asks hask, Verb.run_of_step hverb]
  refine changed_change extent.count_zero fun ds hg => ?_
  obtain ⟨hits, hhits⟩ := hmarks ds hg
  obtain rfl := eq_targets_of_marks hhits
  rw [hstep, hhits, ← count_targets]
  rfl

theorem carries_of_decides (h : Mutates command collection query extent f)
    (hd : Document.Decides query (store.documents collection)) :
    store.Carries collection (extent.count ((store.documents collection).countP (Document.isHit query)))
      (fun rows => f (targets query extent rows) rows) (store.execute fresh command) := by
  refine h.carries fun ds hg => ⟨_, marks_of_decides ?_⟩
  rwa [documents, hg] at hd

/-- A command that succeeds may have a filter that fails behind the first match. -/
theorem carries_of_ok {answer : Answer} {after : Store} (h : Mutates command collection query extent f)
    (hrun : store.execute fresh command = (.ok answer, after)) :
    store.Carries collection (extent.count ((store.documents collection).countP (Document.isHit query)))
      (fun rows => f (targets query extent rows) rows) (.ok answer, after) := by
  rw [← hrun]
  refine h.carries fun ds hg => ?_
  cases hmarks : marks query extent ds with
  | ok hits => exact ⟨hits, rfl⟩
  | error e => simp [h.fails hg hmarks] at hrun

end Mutates

theorem get?_of_marks {e : Error} (h : marks query extent (store.documents collection) = .error e) :
    Dict.get? store.collections collection = some (store.documents collection) := by
  rw [documents] at h ⊢
  cases hds : Dict.get? store.collections collection with
  | none => simp [hds, marks] at h
  | some ds => rfl

/-- The first match stands where the first document that is found stood. -/
theorem getElem?_findIdx (hit : Document → Bool) (rows : List Document) :
    rows[rows.findIdx hit]? = (rows.filter hit).head? := by
  induction rows with
  | nil => rfl
  | cons row rest ih => cases h : hit row <;> simp [List.findIdx_cons, h, ih]

/-- A query and the mutations of every match with its filter fail with one error and change nothing, or all of them
reach the documents that the query finds. Then a mutation of one document reaches the first of them, if there is
any. -/
theorem selects_alike {find remove assign removeFirst assignFirst : Document} (hfind : Finds find collection query)
    (hremove : Deletes remove collection query .every) (hassign : Updates assign collection query set .every)
    (hremoveFirst : Deletes removeFirst collection query .first)
    (hassignFirst : Updates assignFirst collection query set .first) (fresh : Nat → ObjectId) (store : Store) :
    (∃ e, store.execute fresh find = (.error e, store) ∧ store.execute fresh remove = (.error e, store) ∧
        store.execute fresh assign = (.error e, store)) ∨
      ∃ (hit : Document → Bool) (found : List Document) (first : Nat),
        found = (store.documents collection).filter hit ∧ (store.documents collection)[first]? = found.head? ∧
        store.execute fresh find = (.ok (.rows found), store) ∧
        store.Carries collection found.length (List.filter fun row => !hit row) (store.execute fresh remove) ∧
        store.Carries collection found.length (List.map fun row => if hit row then Dict.insertAll row set else row)
          (store.execute fresh assign) ∧
        store.Carries collection (min 1 found.length) (fun rows => rows.eraseIdx first)
          (store.execute fresh removeFirst) ∧
        store.Carries collection (min 1 found.length) (fun rows => rows.modify first (Dict.insertAll · set))
          (store.execute fresh assignFirst) := by
  have hrows := hfind.execute_eq fresh store
  rcases marks_or_decides query (store.documents collection) with ⟨e, hfilter, hmarks⟩ | hd
  · rw [hfilter] at hrows
    have hg := get?_of_marks hmarks
    exact .inl ⟨e, hrows, hremove.mutates.fails hg hmarks, hassign.mutates.fails hg hmarks⟩
  · rw [Pipeline.filterRows_eq hd] at hrows
    have hcount : (store.documents collection).countP (Document.isHit query) =
        ((store.documents collection).filter (Document.isHit query)).length := List.countP_eq_length_filter
    refine .inr ⟨Document.isHit query, _, (store.documents collection).findIdx (Document.isHit query), rfl,
      getElem?_findIdx .., hrows, (hremove.mutates.carries_of_decides hd).congr hcount ?_,
      (hassign.mutates.carries_of_decides hd).congr hcount ?_,
      (hremoveFirst.mutates.carries_of_decides hd).congr (congrArg (min 1) hcount) ?_,
      (hassignFirst.mutates.carries_of_decides hd).congr (congrArg (min 1) hcount) ?_⟩
    · exact dropMarked_map ..
    · exact setMarked_map ..
    · exact dropMarked_first ..
    · exact setMarked_first ..

/-- Three documents of which two have the number two. -/
def pairs : Store where
  collections := [("t", [[("_id", .int32 1), ("n", .int32 1)], [("_id", .int32 2), ("n", .int32 2)],
    [("_id", .int32 3), ("n", .int32 2)]])]

/-- Two documents are found, removed and assigned to, and a mutation of one document reaches the one in front. -/
theorem selects_alike_pairs : ∃ (hit : Document → Bool) (found : List Document) (first : Nat),
    found = [[("_id", .int32 2), ("n", .int32 2)], [("_id", .int32 3), ("n", .int32 2)]] ∧
    (pairs.documents "t")[first]? = some [("_id", .int32 2), ("n", .int32 2)] ∧
    pairs.Carries "t" 2 (List.filter fun row => !hit row) (pairs.execute zeros
      (Verb.delete.command "t" [DeleteSpec.toDocument ⟨[("n", .int32 2)], .every⟩])) ∧
    pairs.Carries "t" 1 (fun rows => rows.eraseIdx first) (pairs.execute zeros
      (Verb.delete.command "t" [DeleteSpec.toDocument ⟨[("n", .int32 2)], .first⟩])) ∧
    pairs.Carries "t" 1 (fun rows => rows.modify first (Dict.insertAll · [("m", .null)])) (pairs.execute zeros
      (Verb.update.command "t" [UpdateSpec.toDocument ⟨[("n", .int32 2)], [("m", .null)], .first⟩])) := by
  have hset : Dict.contains ([("m", .null)] : Document) idField = false := rfl
  have hfind : pairs.execute zeros (Verb.aggregate.command "t" [[("$match", .document [("n", .int32 2)])]]) =
      (.ok (.rows [[("_id", .int32 2), ("n", .int32 2)], [("_id", .int32 3), ("n", .int32 2)]]), pairs) := rfl
  rcases selects_alike (finds_command "t" [("n", .int32 2)]) (deletes_command ..) (updates_command _ _ .every hset)
    (deletes_command ..) (updates_command _ _ .first hset) zeros pairs with
    ⟨e, hfail, -⟩ | ⟨hit, found, first, -, hfirst, hrows, hremove, -, hremoveFirst, hassignFirst⟩
  · simp [hfind] at hfail
  · have hfound := (Prod.mk.inj (hfind.symm.trans hrows)).1
    obtain rfl := Answer.rows.inj (Except.ok.inj hfound)
    exact ⟨hit, _, first, rfl, hfirst, hremove, hremoveFirst, hassignFirst⟩

end Store
end RelDoc
