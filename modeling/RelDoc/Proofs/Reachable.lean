import RelDoc.Proofs.Equivalence
import RelDoc.Proofs.Rendered

/-!
# Stores that commands lead to

Whatever commands a store has carried out from the empty one on (`Store.Reachable`), also failing ones, its
documents have distinct names and a primary key each, and no two in a collection have the same primary key
as stored values go (`Store.Keyed`). An insertion looks at the keys before it appends, an update may not
assign the key, and a delete keeps the rest in order; one step lemma each, and the run by induction
(`Store.Reachable.keyed`).
-/

namespace RelDoc

open Outcome

namespace Store

/-- The primary keys of a list of documents. -/
def rowIds (rows : List Document) : List (Option Value) := rows.map (Dict.get? · idField)

/-- Two primary keys that a collection may have in this order. -/
def Apart : Option Value → Option Value → Prop
  | some x, some y => x.same y = false
  | _, _ => False

/-- Documents with distinct names, and with primary keys that differ. -/
structure KeyedRows (rows : List Document) : Prop where
  distinct : ∀ row ∈ rows, (Value.document row).Distinct
  present : ∀ id ∈ rowIds rows, id.isSome = true
  apart : (rowIds rows).Pairwise Apart

/-- Every collection has keyed rows. -/
def Keyed (store : Store) : Prop :=
  ∀ name rows, Dict.get? store.collections name = some rows → KeyedRows rows

/-- The stores that commands lead to from the empty one. Any document may be a command, well-formed or not: a
document has each of its names once, at every depth, and that is all `hd` says. -/
inductive Reachable (fresh : Nat → ObjectId) : Store → Prop where
  | empty : Reachable fresh {}
  | step {store : Store} (h : Reachable fresh store) {command : Document} (hd : (Value.document command).Distinct) :
    Reachable fresh (store.execute fresh command).2

theorem Keyed.distinct {store : Store} (h : store.Keyed) : store.Distinct :=
  fun name rows hg => (h name rows hg).distinct

/-! ### Rows -/

namespace KeyedRows

variable {rows incoming : List Document}

theorem nil : KeyedRows [] where
  distinct := fun _ h => absurd h List.not_mem_nil
  present := fun _ h => absurd h List.not_mem_nil
  apart := .nil

theorem sublist (h : KeyedRows rows) {fewer : List Document} (hs : fewer.Sublist rows) : KeyedRows fewer where
  distinct row hr := h.distinct row (hs.subset hr)
  present id hi := h.present id ((hs.map _).subset hi)
  apart := h.apart.sublist (hs.map _)

theorem of_rowIds_eq (h : KeyedRows rows) {changed : List Document} (he : rowIds changed = rowIds rows)
    (hd : ∀ row ∈ changed, (Value.document row).Distinct) : KeyedRows changed where
  distinct := hd
  present := by
    rw [he]
    exact h.present
  apart := by
    rw [he]
    exact h.apart

theorem apart_of_not_sameId {a b : Document} (ha : (Dict.get? a idField).isSome = true)
    (hb : (Dict.get? b idField).isSome = true) (h : sameId a b = false) :
    Apart (Dict.get? a idField) (Dict.get? b idField) := by
  obtain ⟨x, hx⟩ := Option.isSome_iff_exists.1 ha
  obtain ⟨y, hy⟩ := Option.isSome_iff_exists.1 hb
  rw [sameId, hx, hy] at h
  rw [hx, hy]
  exact h

/-- A row joins keyed rows if its primary key is none of theirs. -/
theorem concat (h : KeyedRows rows) {row : Document} (hd : (Value.document row).Distinct)
    (hi : (Dict.get? row idField).isSome = true) (hno : ∀ e ∈ rows, sameId e row = false) :
    KeyedRows (rows ++ [row]) := by
  refine ⟨fun r hr => ?_, fun id hid => ?_, ?_⟩
  · rcases List.mem_append.1 hr with hr | hr
    · exact h.distinct r hr
    · rw [List.mem_singleton.1 hr]
      exact hd
  · rw [rowIds, List.map_append] at hid
    rcases List.mem_append.1 hid with hid | hid
    · exact h.present id hid
    · rw [List.mem_singleton.1 hid]
      exact hi
  · rw [rowIds, List.map_append, List.pairwise_append]
    refine ⟨h.apart, List.pairwise_singleton .., fun x hx y hy => ?_⟩
    obtain ⟨e, he, rfl⟩ := List.mem_map.1 hx
    rw [List.mem_singleton.1 hy]
    exact apart_of_not_sameId (h.present _ (List.mem_map.2 ⟨e, he, rfl⟩)) hi (hno e he)

/-- What an insertion checks keeps the rows keyed. -/
theorem append {collection : String} (h : KeyedRows rows) (hd : ∀ row ∈ incoming, (Value.document row).Distinct)
    (hi : ∀ row ∈ incoming, (Dict.get? row idField).isSome = true)
    (hc : checkIds collection rows incoming = .ok ()) : KeyedRows (rows ++ incoming) := by
  induction incoming generalizing rows with
  | nil => rwa [List.append_nil]
  | cons row rest ih =>
    rw [checkIds] at hc
    split at hc
    · simp at hc
    · next hno =>
      have hone : KeyedRows (rows ++ [row]) := by
        refine h.concat (hd row (List.mem_cons_self ..)) (hi row (List.mem_cons_self ..)) fun e he => ?_
        exact Bool.eq_false_iff.2 fun hs => hno (List.any_eq_true.2 ⟨e, he, hs⟩)
      have hrest := ih hone (fun r hr => hd r (List.mem_cons_of_mem _ hr))
        (fun r hr => hi r (List.mem_cons_of_mem _ hr)) hc
      rwa [List.append_assoc] at hrest

end KeyedRows

namespace StoredAs

variable {fresh : Nat → ObjectId} {low high : Nat} {d row : Document}

theorem distinct (h : StoredAs fresh low high d row) (hd : (Value.document d).Distinct) :
    (Value.document row).Distinct := by
  rcases h with ⟨-, rfl⟩ | ⟨hc, n, -, -, rfl⟩
  · exact hd
  · have hk : idField ∉ Dict.keys d := fun hk => by simp [Dict.contains_iff.2 hk] at hc
    refine Value.distinct_document (List.nodup_cons.2 ⟨hk, hd.keys⟩) fun p hp => ?_
    rcases List.mem_cons.1 hp with rfl | hp
    · simp [Value.Distinct]
    · exact hd.field p hp

theorem isSome (h : StoredAs fresh low high d row) : (Dict.get? row idField).isSome = true := by
  rcases h with ⟨hc, rfl⟩ | ⟨-, n, -, -, rfl⟩
  · exact hc
  · rw [Dict.get?_cons, if_pos rfl]
    rfl

end StoredAs

/-! ### One specification -/

/-- A change of rows that keeps them keyed. -/
def Keeps (step : Document → List Document → Except Error (Nat × List Document)) : Prop :=
  ∀ spec rows n after, (Value.document spec).Distinct → KeyedRows rows → step spec rows = .ok (n, after) →
    KeyedRows after

theorem distinct_subDocument {doc inner : Document} {key : String} (hd : (Value.document doc).Distinct)
    (h : subDocument doc key = .ok inner) : (Value.document inner).Distinct := by
  unfold subDocument at h
  cases hg : (Dict.get? doc key).bind Value.document? with
  | none => simp [hg] at h
  | some d =>
    rw [hg] at h
    obtain rfl := Except.ok.inj h
    obtain ⟨v, hv, hdoc⟩ := Option.bind_eq_some_iff.1 hg
    have hv := hd.get? hv
    cases v with
    | document fields =>
      obtain rfl := Option.some.inj hdoc
      exact hv
    | _ => simp [Value.document?] at hdoc

theorem UpdateSpec.ofDocument_parts {spec : Document} {u : UpdateSpec} (h : UpdateSpec.ofDocument spec = .ok u) :
    ∃ update, subDocument spec "u" = .ok update ∧ subDocument update "$set" = .ok u.set ∧
      Dict.contains u.set idField = false := by
  obtain ⟨q, -, h⟩ := bind_eq_ok.1 h
  obtain ⟨update, hu, h⟩ := bind_eq_ok.1 h
  obtain ⟨set, hs, h⟩ := bind_eq_ok.1 h
  cases hc : Dict.contains set idField with
  | true =>
    simp only [hc, if_true] at h
    obtain ⟨_, h, -⟩ := bind_eq_ok.1 h
    simp at h
  | false =>
    simp only [hc, Bool.false_eq_true, if_false] at h
    obtain rfl := Except.ok.inj h
    exact ⟨update, hu, hs, hc⟩

theorem UpdateSpec.ofDocument_eq_ok {spec : Document} {u : UpdateSpec} (hd : (Value.document spec).Distinct)
    (h : UpdateSpec.ofDocument spec = .ok u) :
    (Value.document u.set).Distinct ∧ Dict.contains u.set idField = false := by
  obtain ⟨update, hu, hs, hc⟩ := ofDocument_parts h
  exact ⟨distinct_subDocument (distinct_subDocument hd hu) hs, hc⟩

theorem get?_insertAll_of_not_mem {set : Document} {name : String} (hn : name ∉ Dict.keys set) (row : Document) :
    Dict.get? (Dict.insertAll row set) name = Dict.get? row name := by
  induction set generalizing row with
  | nil => rfl
  | cons p rest ih =>
    rw [Dict.keys, List.map_cons, List.mem_cons, not_or] at hn
    have hi : Dict.insertAll row (p :: rest) = Dict.insertAll (Dict.insert row p.1 p.2) rest := rfl
    rw [hi, ih hn.2, Dict.get?_insert_of_ne (Ne.symm hn.1)]

theorem rowIds_setMarked {set : Document} (hc : Dict.contains set idField = false) (hits : List Bool)
    (rows : List Document) : rowIds (setMarked set hits rows) = rowIds rows := by
  have hn : idField ∉ Dict.keys set := fun hk => by simp [Dict.contains_iff.2 hk] at hc
  induction hits generalizing rows with
  | nil => rfl
  | cons hit hits ih =>
    cases rows with
    | nil => rfl
    | cons row rest =>
      have hrow : Dict.get? (if hit = true then Dict.insertAll row set else row) idField =
          Dict.get? row idField := by
        split
        · exact get?_insertAll_of_not_mem hn row
        · rfl
      have ih := ih rest
      rw [rowIds, rowIds] at ih
      rw [setMarked, rowIds, rowIds, List.map_cons, List.map_cons, hrow, ih]

/-- Whatever the specification of an update is, the rows keep their primary keys. -/
theorem rowIds_updateOnce {spec : Document} {rows after : List Document} {n : Nat}
    (h : updateOnce spec rows = .ok (n, after)) : rowIds after = rowIds rows := by
  obtain ⟨u, hu, h⟩ := bind_eq_ok.1 h
  obtain ⟨hits, -, h⟩ := bind_eq_ok.1 h
  obtain ⟨-, rfl⟩ := Prod.mk.inj (Except.ok.inj h)
  obtain ⟨-, -, -, hc⟩ := UpdateSpec.ofDocument_parts hu
  exact rowIds_setMarked hc hits rows

theorem distinct_setMarked {set : Document} (hs : (Value.document set).Distinct) {hits : List Bool}
    {rows : List Document} (h : ∀ row ∈ rows, (Value.document row).Distinct) :
    ∀ row ∈ setMarked set hits rows, (Value.document row).Distinct := by
  induction hits generalizing rows with
  | nil => exact h
  | cons hit hits ih =>
    cases rows with
    | nil => exact h
    | cons r rest =>
      intro row hr
      have hfirst := h r (List.mem_cons_self ..)
      rcases List.mem_cons.1 hr with rfl | hr
      · split
        · refine Value.distinct_document (Dict.nodup_keys_insertAll hfirst.keys set) fun p hp => ?_
          rcases Dict.mem_insertAll hp with hp | hp
          · exact hs.field p hp
          · exact hfirst.field p hp
        · exact hfirst
      · exact ih (fun r hr => h r (List.mem_cons_of_mem _ hr)) row hr

theorem dropMarked_sublist (hits : List Bool) (rows : List Document) : (dropMarked hits rows).Sublist rows := by
  induction hits generalizing rows with
  | nil => exact List.Sublist.refl _
  | cons hit hits ih =>
    cases rows with
    | nil => exact List.Sublist.refl _
    | cons row rest =>
      rw [dropMarked]
      split
      · exact (ih rest).cons row
      · exact (ih rest).cons_cons row

theorem keeps_updateOnce : Keeps updateOnce := by
  intro spec rows n after hd hk h
  refine hk.of_rowIds_eq (rowIds_updateOnce h) ?_
  obtain ⟨u, hu, h⟩ := bind_eq_ok.1 h
  obtain ⟨hits, -, h⟩ := bind_eq_ok.1 h
  obtain ⟨-, rfl⟩ := Prod.mk.inj (Except.ok.inj h)
  exact distinct_setMarked (UpdateSpec.ofDocument_eq_ok hd hu).1 hk.distinct

theorem keeps_deleteOnce : Keeps deleteOnce := by
  intro spec rows n after _ hk h
  obtain ⟨u, -, h⟩ := bind_eq_ok.1 h
  obtain ⟨hits, -, h⟩ := bind_eq_ok.1 h
  obtain ⟨-, rfl⟩ := Prod.mk.inj (Except.ok.inj h)
  exact hk.sublist (dropMarked_sublist hits rows)

/-! ### One command -/

variable {fresh : Nat → ObjectId} {store : Store} {collection : String} {command : Document}

theorem Keyed.withDocuments (h : store.Keyed) {rows : List Document} (hk : KeyedRows rows) :
    (store.withDocuments collection rows).Keyed := by
  intro name ds hg
  rw [Store.withDocuments, Dict.get?_insert] at hg
  split at hg
  · obtain rfl := Option.some.inj hg
    exact hk
  · exact h name ds hg

theorem Keyed.documents (h : store.Keyed) (collection : String) : KeyedRows (store.documents collection) := by
  unfold Store.documents
  cases hg : Dict.get? store.collections collection with
  | none => exact .nil
  | some ds => exact h collection ds hg

theorem Asks.distinct {verb : Verb} {given : List Document} (h : Asks command verb collection given)
    (hd : (Value.document command).Distinct) : ∀ d ∈ given, (Value.document d).Distinct := by
  obtain ⟨-, -, hg⟩ := h
  exact fun d hm => (hd.get? hg).member (List.mem_map.2 ⟨d, hm, rfl⟩)

theorem Keyed.accept (h : store.Keyed) {given : List Document}
    (hd : ∀ d ∈ given, (Value.document d).Distinct) : (store.accept fresh collection given).2.Keyed := by
  have hrows := (storedAs_identify fresh store.issued given).2
  unfold Store.accept
  dsimp only
  split
  · exact h.withDocuments (h.documents collection)
  · next hc =>
    refine h.withDocuments ((h.documents collection).append (fun row hr => ?_) (fun row hr => ?_) hc)
    · obtain ⟨d, hm, hs⟩ := forall₂_mem_right hrows hr
      exact hs.distinct (hd d hm)
    · obtain ⟨d, -, hs⟩ := forall₂_mem_right hrows hr
      exact hs.isSome

theorem keyedRows_applySpecs {step : Document → List Document → Except Error (Nat × List Document)}
    (hs : Keeps step) {specs : List Document} (hd : ∀ spec ∈ specs, (Value.document spec).Distinct) {total : Nat}
    {rows : List Document} (hk : KeyedRows rows) : KeyedRows (applySpecs step total rows specs).2 := by
  induction specs generalizing total rows with
  | nil => exact hk
  | cons spec rest ih =>
    rw [applySpecs]
    split
    · exact hk
    · next n after hstep =>
      refine ih (fun s hm => hd s (List.mem_cons_of_mem _ hm)) ?_
      exact hs spec rows n after (hd spec (List.mem_cons_self ..)) hk hstep

theorem Keyed.change (h : store.Keyed) {step : Document → List Document → Except Error (Nat × List Document)}
    (hs : Keeps step) {specs : List Document} (hd : ∀ spec ∈ specs, (Value.document spec).Distinct) :
    (store.change step collection specs).2.Keyed := by
  unfold Store.change
  split
  · exact h
  · next rows hg => exact h.withDocuments (keyedRows_applySpecs hs hd (h collection rows hg))

/-- One command, also a failing one, keeps every collection keyed. -/
theorem Keyed.execute (h : store.Keyed) (hd : (Value.document command).Distinct) :
    (store.execute fresh command).2.Keyed := by
  rcases asks_or_refused command with ⟨verb, collection, given, ha⟩ | ⟨e, -, he⟩
  · have hgiven := ha.distinct hd
    rw [execute_of_asks ha]
    cases verb with
    | insert => exact h.accept hgiven
    | update => exact h.change keeps_updateOnce hgiven
    | delete => exact h.change keeps_deleteOnce hgiven
    | aggregate => exact h
  · rw [he]
    exact h

/-- Every run of commands keeps every collection keyed. -/
theorem Reachable.keyed (h : Reachable fresh store) : store.Keyed := by
  induction h with
  | empty => exact fun name rows hg => by simp at hg
  | step _ hd ih => exact ih.execute hd

end Store
end RelDoc
