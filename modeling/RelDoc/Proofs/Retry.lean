import RelDoc.Proofs.Frame

/-!
# Updates that can be repeated

An update of every match can be sent again. It gives the documents that its filter selects their new fields
(`UpdateSpec.revise`), and what was revised once is not changed by another revision, whether or not the filter still
selects it: to insert the same fields again does nothing (`Document.insertAll_insertAll`). The second walk may fail
where the first did not, as a new value can lead it to a condition that the first had no need of; it then leaves the
store as it is (`Store.execute_retry`).
-/

namespace RelDoc

open Outcome

/-! ### Inserting again -/

namespace Dict

variable {α : Type} {d : Dict α} {j k : String}

theorem keys_subset_insert (d : Dict α) (j : String) (b : α) : keys d ⊆ keys (insert d j b) := by
  rw [keys_insert]
  split
  · exact List.Subset.refl _
  · exact List.subset_append_left _ _

/-- A name that stands already keeps its place, so it does not matter which of two names comes first. -/
theorem insert_comm (hk : k ∈ keys d) (hne : k ≠ j) (a b : α) :
    insert (insert d k a) j b = insert (insert d j b) k a := by
  induction d with
  | nil => simp [keys] at hk
  | cons p rest ih =>
    obtain ⟨name, c⟩ := p
    by_cases hname : name = k
    · subst hname
      simp [insert, hne]
    · have hrest : k ∈ keys rest := (List.mem_cons.1 hk).resolve_left (Ne.symm hname)
      by_cases hj : name = j <;> simp [insert, hname, hj, Ne.symm hne, ih hrest]

/-- A value that is overwritten later is never seen. -/
theorem insertAll_insert {pairs : Dict α} (hk : k ∈ keys pairs) (hd : k ∈ keys d) (a : α) :
    insertAll (insert d k a) pairs = insertAll d pairs := by
  induction pairs generalizing d with
  | nil => simp [keys] at hk
  | cons p rest ih =>
    obtain ⟨j, b⟩ := p
    show insertAll (insert (insert d k a) j b) rest = insertAll (insert d j b) rest
    by_cases hj : j = k
    · subst hj
      rw [insert_insert]
    · have hrest : k ∈ keys rest := (List.mem_cons.1 hk).resolve_left (Ne.symm hj)
      have hkeys : k ∈ keys (insert d j b) := keys_subset_insert d j b hd
      rw [insert_comm hd (Ne.symm hj), ih hrest hkeys]

end Dict

theorem Document.insertAll_insertAll (row pairs : Document) :
    Dict.insertAll (Dict.insertAll row pairs) pairs = Dict.insertAll row pairs := by
  induction pairs generalizing row with
  | nil => rfl
  | cons p rest ih =>
    obtain ⟨k, a⟩ := p
    have hdone := ih (Dict.insert row k a)
    show Dict.insertAll (Dict.insert (Dict.insertAll (Dict.insert row k a) rest) k a) rest =
      Dict.insertAll (Dict.insert row k a) rest
    by_cases hk : k ∈ Dict.keys rest
    · -- the name comes again, and its last value is the one that stays
      have hkeys : k ∈ Dict.keys (Dict.insertAll (Dict.insert row k a) rest) := by
        refine (Dict.keys_prefix_insertAll _ rest).subset ((Dict.get?_isSome _ _).1 ?_)
        rw [Dict.get?_insert_self]
        rfl
      rw [Dict.insertAll_insert hk hkeys, hdone]
    · have hget : Dict.get? (Dict.insertAll (Dict.insert row k a) rest) k = some a := by
        rw [Store.get?_insertAll_of_not_mem hk, Dict.get?_insert_self]
      rw [Dict.insert_of_get?_eq_some hget, hdone]

namespace Store

variable {fresh : Nat → ObjectId} {store after : Store} {collection : String} {spec : Document}
  {rows rows' : List Document} {n : Nat}

/-! ### One specification -/

namespace UpdateSpec

variable {u : UpdateSpec}

/-- The document with its new fields, if the filter selects it. -/
def revise (u : UpdateSpec) (row : Document) : Document :=
  if Document.isHit u.filter row then Dict.insertAll row u.set else row

/-- It does not matter if the filter selects the revised document, too. -/
theorem revise_revise (u : UpdateSpec) (row : Document) : u.revise (u.revise row) = u.revise row := by
  cases hhit : Document.isHit u.filter row with
  | false =>
    have hsame : u.revise row = row := by simp [revise, hhit]
    rw [hsame, hsame]
  | true =>
    have hrevised : u.revise row = Dict.insertAll row u.set := by rw [revise, if_pos hhit]
    rw [hrevised, revise]
    split
    · exact Document.insertAll_insertAll row u.set
    · rfl

theorem map_revise_map_revise (u : UpdateSpec) (rows : List Document) :
    (rows.map u.revise).map u.revise = rows.map u.revise := by
  rw [List.map_map]
  exact List.map_congr_left fun row _ => u.revise_revise row

theorem extent_eq_every (h : ofDocument spec = .ok u) (hmulti : Dict.get? spec "multi" = some (.boolean true)) :
    u.extent = .every := by
  obtain ⟨filter, -, h⟩ := bind_eq_ok.1 h
  obtain ⟨update, -, h⟩ := bind_eq_ok.1 h
  obtain ⟨set, -, h⟩ := bind_eq_ok.1 h
  cases hc : Dict.contains set idField with
  | true =>
    simp only [hc, if_true] at h
    obtain ⟨_, hthrow, -⟩ := bind_eq_ok.1 h
    simp at hthrow
  | false =>
    simp only [hc, hmulti, Bool.false_eq_true, if_false] at h
    obtain rfl := Except.ok.inj h
    rfl

end UpdateSpec

theorem updateOnce_every {u : UpdateSpec} (hu : UpdateSpec.ofDocument spec = .ok u) (he : u.extent = .every)
    (h : updateOnce spec rows = .ok (n, rows')) : rows' = rows.map u.revise := by
  rw [updateOnce_of_spec hu, he] at h
  cases hmarks : marks u.filter .every rows with
  | error e => simp [hmarks, Except.map] at h
  | ok hits =>
    rw [hmarks] at h
    obtain ⟨-, rfl⟩ := Prod.mk.inj (Except.ok.inj h)
    rw [eq_targets_of_marks hmarks, targets, Extent.restrict, setMarked_map]
    rfl

/-- What a specification for every match has done, it does not do again. -/
theorem updateOnce_again {m : Nat} {rows'' : List Document}
    (hmulti : Dict.get? spec "multi" = some (.boolean true)) (h : updateOnce spec rows = .ok (n, rows'))
    (h' : updateOnce spec rows' = .ok (m, rows'')) : rows'' = rows' := by
  obtain ⟨u, hu, -, -⟩ := updateOnce_eq_ok h
  have he := UpdateSpec.extent_eq_every hu hmulti
  obtain rfl := updateOnce_every hu he h
  obtain rfl := updateOnce_every hu he h'
  exact u.map_revise_map_revise rows

/-- One specification fails and leaves the store as it is, or puts the documents that it makes in the place of those
that there were. -/
theorem change_updateOnce_cases (hg : Dict.get? store.collections collection = some rows) (spec : Document) :
    (∃ e, store.change updateOnce collection [spec] = (.error e, store)) ∨
      ∃ n rows', updateOnce spec rows = .ok (n, rows') ∧
        store.change updateOnce collection [spec] = (.ok (.affected n), store.withDocuments collection rows') := by
  cases hstep : updateOnce spec rows with
  | error e => exact .inl ⟨e, change_of_error hg hstep⟩
  | ok result =>
    obtain ⟨n, rows'⟩ := result
    refine .inr ⟨n, rows', rfl, ?_⟩
    simp only [change_single, hg, hstep]

theorem change_again {outcome : Except Error Answer} (hmulti : Dict.get? spec "multi" = some (.boolean true))
    (h : store.change updateOnce collection [spec] = (outcome, after)) :
    (after.change updateOnce collection [spec]).2 = after ∧ ∀ e, outcome = .error e → after = store := by
  cases hg : Dict.get? store.collections collection with
  | none =>
    have hnothing : store.change updateOnce collection [spec] = (.ok (.affected 0), store) := by
      simp only [change_single, hg]
    rw [hnothing] at h
    obtain ⟨-, rfl⟩ := Prod.mk.inj h
    exact ⟨by rw [hnothing], fun _ _ => rfl⟩
  | some rows =>
    rcases change_updateOnce_cases hg spec with ⟨e, hfirst⟩ | ⟨n, rows', hstep, hfirst⟩
    · rw [hfirst] at h
      obtain ⟨-, rfl⟩ := Prod.mk.inj h
      exact ⟨by rw [hfirst], fun _ _ => rfl⟩
    · rw [hfirst] at h
      obtain ⟨rfl, rfl⟩ := Prod.mk.inj h
      have hg' : Dict.get? (store.withDocuments collection rows').collections collection = some rows' :=
        Dict.get?_insert_self ..
      constructor
      · -- the collection holds the revised documents now, and the second walk may fail on one of them
        rcases change_updateOnce_cases hg' spec with ⟨e, hsecond⟩ | ⟨m, rows'', hstep', hsecond⟩
        · rw [hsecond]
        · obtain rfl := updateOnce_again hmulti hstep hstep'
          rw [hsecond, withDocuments, Dict.insert_of_get?_eq_some hg']
      · intro e he
        simp at he

/-! ### The command -/

/-- An update of every match by one specification can be sent again: the second time changes nothing more. If the
first time it fails, then the store is as it was and the second time it fails with the same error. -/
theorem execute_retry {v : Value} {rest : Document} {outcome : Except Error Answer}
    (hspecs : Dict.get? (("update", v) :: rest) "updates" = some (.array [.document spec]))
    (hmulti : Dict.get? spec "multi" = some (.boolean true))
    (h : store.execute fresh (("update", v) :: rest) = (outcome, after)) :
    (after.execute fresh (("update", v) :: rest)).2 = after ∧
      ∀ e, outcome = .error e →
        after = store ∧ after.execute fresh (("update", v) :: rest) = (.error e, store) := by
  suffices hchange : (after.execute fresh (("update", v) :: rest)).2 = after ∧
      ∀ e, outcome = .error e → after = store by
    refine ⟨hchange.1, fun e he => ?_⟩
    obtain rfl := hchange.2 e he
    exact ⟨rfl, by rw [h, he]⟩
  rcases asks_or_refused (("update", v) :: rest) with ⟨verb, collection, specs, ha⟩ | ⟨e, -, hrefused⟩
  · obtain rfl : verb = .update := Verb.name_inj ha.name_eq
    obtain rfl : specs = [spec] := by
      obtain ⟨more, -, hgiven⟩ := ha
      have hdocuments : commandDocuments (("update", v) :: rest) "updates" = .ok specs :=
        commandDocuments_eq_ok.2 hgiven
      exact Except.ok.inj (hdocuments.symm.trans (commandDocuments_eq_ok.2 hspecs))
    rw [execute_of_asks ha, Verb.run_of_step rfl] at h ⊢
    exact change_again hmulti h
  · rw [hrefused] at h ⊢
    obtain ⟨-, rfl⟩ := Prod.mk.inj h
    exact ⟨rfl, fun _ _ => rfl⟩

/-- The number five for every number up to two. Only of other numbers the filter asks more, and that by an operator
that there is not. -/
def fives : Document :=
  UpdateSpec.toDocument ⟨[("$or", .array [.document [("n", .document [("$lte", .int32 2)])],
    .document [("n", .document [("$odd", .boolean true)])]])], [("n", .int32 5)], .every⟩

/-- The first time gives all documents the number five, and the second time fails on the first of them. -/
theorem execute_retry_fives : ∃ after,
    pairs.execute zeros (updating "t" fives) = (.ok (.affected 3), after) ∧
    after.execute zeros (updating "t" fives) = (.error (.store (.unknownOperator "$odd")), after) := by
  have hrun : pairs.execute zeros (updating "t" fives) = (.ok (.affected 3), _) := Prod.ext (y := (_, _)) rfl rfl
  obtain ⟨hsame, -⟩ := execute_retry rfl rfl hrun
  exact ⟨_, hrun, Prod.ext (y := (_, _)) rfl hsame⟩

end Store
end RelDoc
