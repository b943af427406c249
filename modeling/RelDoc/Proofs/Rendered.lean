import RelDoc.Proofs.Execution
import RelDoc.Proofs.Filling
import RelDoc.Proofs.Planned
import RelDoc.Proofs.Transparency
import RelDoc.Proofs.Truth
import RelDoc.Session

/-!
# Rendered commands on a store

A statement is rendered exactly if it is planned, its parameters can be encoded and they are the ones the
plan asks for; the command document is then the plan filled in (`Session.render_eq_ok`). A store runs the
pipeline of a rendered query on the documents of the collection (`Store.execute_aggregate`), and a rendered
update or delete asks it to carry out a single specification (`Store.asks_update`, `Store.asks_delete`).
-/

namespace RelDoc

open Outcome

namespace Session

variable {d : Dialect}

theorem distinct_encodeAll {c : Codec} (hc : c.Distinct) {parameters : List Scalar} {values : List Value}
    (h : encodeAll c parameters = .ok values) : ∀ v ∈ values, v.Distinct := by
  induction parameters generalizing values with
  | nil =>
    obtain rfl := Except.ok.inj h
    exact fun v hv => absurd hv List.not_mem_nil
  | cons p rest ih =>
    obtain ⟨w, hw, h⟩ := bind_eq_ok.1 h
    obtain ⟨more, hm, h⟩ := bind_eq_ok.1 h
    obtain rfl := Except.ok.inj h
    intro v hv
    rcases List.mem_cons.1 hv with rfl | hv
    · exact hc _ _ hw
    · exact ih hm v hv

theorem render_eq_ok {s : Statement} {parameters : List Scalar} {command : Document} :
    render d s parameters = .ok command ↔ ∃ c values, Direct.command d s = .ok c ∧
      encodeAll d.codec parameters = .ok values ∧ (∀ n, n ∈ c.positions ↔ n < values.length) ∧
      command = c.fill (valuesAt values) := by
  unfold render
  rw [bind_eq_ok, d.commandOf_eq]
  refine exists_congr fun c => ?_
  constructor
  · rintro ⟨hc, h⟩
    obtain ⟨values, hv, hb⟩ := bind_eq_ok.1 h
    exact ⟨values, hc, hv, (Command.bind_eq_ok_iff (Direct.wellFormed_command hc)).1 hb⟩
  · rintro ⟨values, hc, hv, hb⟩
    exact ⟨hc, bind_eq_ok.2 ⟨values, hv, (Command.bind_eq_ok_iff (Direct.wellFormed_command hc)).2 hb⟩⟩

end Session

namespace Store

variable (fresh : Nat → ObjectId) (store : Store) (σ : Nat → Value) (collection : String)

/-- Every stored document has distinct names. -/
def Distinct : Prop :=
  ∀ name ds, Dict.get? store.collections name = some ds → ∀ row ∈ ds, (Value.document row).Distinct

theorem Distinct.documents {store : Store} (h : store.Distinct) {collection : String} :
    ∀ row ∈ store.documents collection, (Value.document row).Distinct := by
  intro row hr
  unfold Store.documents at hr
  cases hg : Dict.get? store.collections collection with
  | none => simp [hg] at hr
  | some ds =>
    rw [hg] at hr
    exact h collection ds hg row hr

theorem execute_aggregate (pipeline : List Stage) :
    store.execute fresh ((Command.aggregate collection pipeline).fill σ) =
      ((Pipeline.run (store.documents collection) (pipeline.map (Stage.fill σ))).map Answer.rows, store) := by
  have ha : Asks ((Command.aggregate collection pipeline).fill σ) .aggregate collection
      (pipeline.map (Stage.fill σ)) := by
    have hpair := asks_pair .aggregate collection (pipeline.map (Stage.fill σ))
    rw [List.map_map] at hpair
    exact hpair
  rw [execute_of_asks ha, Verb.run]

/-- The specification that an update is rendered to, for every match or the first. -/
def updateSpec (f : Filter) (us : List FieldUpdate) (multi : Bool) : Document :=
  [("q", .document (f.fill σ)),
    ("u", .document [(FieldClause.set.token, .document (us.map fun u => (u.field.text, u.value.fill σ)))]),
    ("multi", .boolean multi)]

/-- The specification that a delete is rendered to. -/
def deleteSpec (f : Filter) : Document := [("q", .document (f.fill σ)), ("limit", .int32 0)]

theorem asks_update (f : Filter) (us : List FieldUpdate) :
    Asks ((Command.update collection f us).fill σ) .update collection [updateSpec σ f us !f.pinsId] :=
  asks_pair .update collection [updateSpec σ f us !f.pinsId]

theorem asks_delete (f : Filter) :
    Asks ((Command.delete collection f).fill σ) .delete collection [deleteSpec σ f] :=
  asks_pair .delete collection [deleteSpec σ f]

end Store

/-- Three people. -/
def Store.people : Store where
  collections := [("persons", [[("years", .int32 40), ("_id", .int32 1)], [("_id", .int32 2), ("years", .int64 17)],
    [("_id", .int32 3), ("years", .int32 18)]])]

theorem Store.distinct_people : people.Distinct := by
  intro name ds h
  rw [people, Dict.get?_cons] at h
  split at h
  · obtain rfl := Option.some.inj h
    simp [Value.Distinct, Value.DistinctFields]
  · simp at h

end RelDoc
