import RelDoc.Proofs.Reachable

/-!
# Insertions and the primary keys of a store

An insertion appends rows for all of its documents in their order, or it fails over a primary key and leaves
the documents of every collection as they were (`Store.Inserted`), whatever the store and the supply of
identifiers are.

In a store that commands lead to, every document has a primary key, and no two in a collection have one that
is the same as stored values go. The check of an insertion compares a new key with each of the old ones from
one side only; that this is enough needs documents to have each name once (`Store.KeyedRows.differ`).
-/

namespace RelDoc

namespace Store

variable {fresh : Nat → ObjectId} {store : Store}

/-- All documents that the command inserts are appended to its collection; or nothing is, and then one of
the rows would have had the primary key of a row before it, if the command can be read as an insertion at all. -/
inductive Inserted (fresh : Nat → ObjectId) (before : Store) (command : Document) :
    Except Error Answer × Store → Prop where
  | all {after : Store} {collection : String} {given rows : List Document}
    (asks : Asks command .insert collection given)
    (stored : List.Forall₂ (StoredAs fresh before.issued after.issued) given rows)
    (appended : after.documents collection = before.documents collection ++ rows)
    (others : ∀ other, other ≠ collection → after.documents other = before.documents other) :
    Inserted fresh before command (.ok (.affected given.length), after)
  | none {after : Store} {e : Error} (unchanged : ∀ other, after.documents other = before.documents other)
    (clash : ∀ collection given, Asks command .insert collection given → ∃ earlier row later,
      List.Forall₂ (StoredAs fresh before.issued after.issued) given (earlier ++ row :: later) ∧
      ∃ other ∈ before.documents collection ++ earlier, sameId other row = true) :
    Inserted fresh before command (.error e, after)

theorem checkIds_eq_error {collection : String} {present incoming : List Document} {e : Error}
    (h : checkIds collection present incoming = .error e) :
    ∃ earlier row later, incoming = earlier ++ row :: later ∧
      ∃ other ∈ present ++ earlier, sameId other row = true := by
  induction incoming generalizing present with
  | nil => simp [checkIds] at h
  | cons row later ih =>
    rw [checkIds] at h
    split at h
    · next hany =>
      obtain ⟨other, hother, hsame⟩ := List.any_eq_true.1 hany
      exact ⟨[], row, later, rfl, other, List.mem_append_left _ hother, hsame⟩
    · obtain ⟨earlier, failed, later, rfl, other, hother, hsame⟩ := ih h
      refine ⟨row :: earlier, failed, later, rfl, other, ?_, hsame⟩
      rwa [List.append_assoc] at hother

theorem inserted_accept {command : Document} {collection : String} {given : List Document}
    (h : Asks command .insert collection given) :
    Inserted fresh store command (store.accept fresh collection given) := by
  have hrows := (storedAs_identify fresh store.issued given).2
  unfold accept
  dsimp only
  split
  · next hc =>
    refine .none (fun other => ?_) fun collection' given' h' => ?_
    · refine (documents_withDocuments store collection _ other).trans ?_
      split
      · next ho => rw [ho]
      · rfl
    · obtain ⟨-, rfl, rfl⟩ := h.unique h'
      obtain ⟨earlier, row, later, hsplit, hclash⟩ := checkIds_eq_error hc
      refine ⟨earlier, row, later, ?_, hclash⟩
      rw [← hsplit]
      exact hrows
  · refine .all h hrows ?_ fun other ho => ?_
    · exact (documents_withDocuments store collection _ collection).trans (if_pos rfl)
    · exact (documents_withDocuments store collection _ other).trans (if_neg (Ne.symm ho))

theorem inserted_execute (fresh : Nat → ObjectId) (store : Store) (v : Value) (rest : Document) :
    Inserted fresh store (("insert", v) :: rest) (store.execute fresh (("insert", v) :: rest)) := by
  rcases asks_or_refused (("insert", v) :: rest) with ⟨verb, collection, given, ha⟩ | ⟨e, hno, he⟩
  · have hverb : verb = .insert := by
      obtain ⟨more, he, -⟩ := ha
      exact Verb.name_inj (congrArg Prod.fst (List.cons.inj he).1).symm
    subst hverb
    rw [execute_of_asks ha]
    exact inserted_accept ha
  · rw [he]
    exact .none (fun _ => rfl) fun collection given hv => absurd hv (hno .insert collection given)

theorem KeyedRows.differ {rows : List Document} (h : KeyedRows rows) :
    rows.Pairwise fun a b => ∀ x y, Dict.get? a idField = some x → Dict.get? b idField = some y →
      x.same y = false ∧ y.same x = false := by
  refine (List.pairwise_map.1 h.apart).imp_of_mem fun {a b} ha hb hapart x y hx hy => ?_
  have hxy : x.same y = false := by
    rw [hx, hy] at hapart
    exact hapart
  have hdx : x.Distinct := (h.distinct a ha).get? hx
  have hdy : y.Distinct := (h.distinct b hb).get? hy
  -- the insertion of the later row compared the keys in this order only
  refine ⟨hxy, Bool.eq_false_iff.2 fun hyx => ?_⟩
  rw [Value.same_symm hdy hdx hyx] at hxy
  simp at hxy

/-- In every store that commands lead to, each document has a primary key and no two of a collection have
the same; and an insertion appends all of its documents or none. -/
theorem Reachable.keyed_and_inserts (h : Reachable fresh store) :
    (∀ collection, ∀ row ∈ store.documents collection, Dict.contains row idField = true) ∧
    (∀ collection, (store.documents collection).Pairwise fun a b => ∀ x y, Dict.get? a idField = some x →
      Dict.get? b idField = some y → x.same y = false ∧ y.same x = false) ∧
    ∀ (v : Value) (rest : Document),
      Inserted fresh store (("insert", v) :: rest) (store.execute fresh (("insert", v) :: rest)) := by
  have hkeyed (collection : String) : KeyedRows (store.documents collection) := h.keyed.documents collection
  refine ⟨fun collection row hr => ?_, fun collection => (hkeyed collection).differ, inserted_execute fresh store⟩
  exact (hkeyed collection).present _ (List.mem_map.2 ⟨row, hr, rfl⟩)

/-- The store after a document with and one without a primary key have been inserted. -/
def shelf : Store where
  collections := [("persons", [[("_id", .int32 1)], [("_id", .objectId (zeros 0)), ("years", .int32 40)]])]
  issued := 1

theorem reachable_shelf : Reachable zeros shelf := by
  have hd : (Value.document [("insert", .string "persons"),
      ("documents", .array [.document [("_id", .int32 1)], .document [("years", .int32 40)]])]).Distinct := by
    simp [Value.Distinct, Value.DistinctItems, Value.DistinctFields]
  exact Reachable.step .empty hd

/-- The supply has given its one identifier away, so a document that needs one is refused, together with the
document before it. -/
theorem Reachable.keyed_and_inserts_shelf : Reachable zeros shelf ∧
    (∀ row ∈ shelf.documents "persons", Dict.contains row idField = true) ∧
    (∀ collection, (shelf.execute zeros [("insert", .string "persons"),
      ("documents", .array [.document [("_id", .int32 2)], .document []])]).2.documents collection =
        shelf.documents collection) ∧
    (shelf.execute zeros [("insert", .string "persons"),
      ("documents", .array [.document [("_id", .int32 2)]])]).2.documents "persons" =
        shelf.documents "persons" ++ [[("_id", .int32 2)]] := by
  obtain ⟨hpresent, -, hinserted⟩ := reachable_shelf.keyed_and_inserts
  refine ⟨reachable_shelf, hpresent "persons", ?_, rfl⟩
  have hi := hinserted (.string "persons") [("documents", .array [.document [("_id", .int32 2)], .document []])]
  have he : (shelf.execute zeros [("insert", .string "persons"),
      ("documents", .array [.document [("_id", .int32 2)], .document []])]).1 =
      .error (.store (.duplicateKey "persons" (.objectId (zeros 0)))) := rfl
  generalize shelf.execute zeros _ = outcome at hi he ⊢
  cases hi with
  | all => simp at he
  | none hsame => exact hsame

end Store
end RelDoc
