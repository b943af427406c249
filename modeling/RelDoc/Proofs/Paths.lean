import Mathlib.Data.List.TakeWhile
import RelDoc.Proofs.Targets

/-!
# What a path means to each part of the store

Filters and sorting follow a path into the documents inside a document (`Document.lookup`), while an update and
a projection take the text of the path for a name. A lookup depends on one entry alone, the one under the head of the
path (`Document.lookup_congr`), and a dotted path is not its own head (`pathHead_eq_iff`). So to assign to a dotted path
changes no lookup under it (`Document.lookup_insert`), and a projection that names one keeps what the path leads to
only if it shows the head of the path for another reason. With a path without dots all of them agree
(`Store.paths_alike`).
-/

namespace RelDoc

open Outcome

/-! ### The head of a path -/

/-- The name that a path is followed from. -/
def pathHead (path : String) : String := String.ofList (path.toList.takeWhile (· ≠ '.'))

theorem splitAtDots_eq_cons (cs : List Char) : ∃ more, splitAtDots cs = cs.takeWhile (· ≠ '.') :: more := by
  induction cs with
  | nil => exact ⟨[], rfl⟩
  | cons c rest ih =>
    rw [splitAtDots, List.takeWhile_cons]
    by_cases hc : c = '.'
    · exact ⟨splitAtDots rest, by simp [hc]⟩
    · obtain ⟨more, hrest⟩ := ih
      exact ⟨more, by simp [hc, hrest]⟩

theorem pathNames_eq_cons (path : String) : ∃ more, pathNames path = pathHead path :: more := by
  obtain ⟨more, hsplit⟩ := splitAtDots_eq_cons path.toList
  exact ⟨more.map String.ofList, by rw [pathNames, hsplit, List.map_cons, pathHead]⟩

theorem pathHead_eq_iff {path : String} : pathHead path = path ↔ '.' ∉ path.toList := by
  constructor
  · intro h hdot
    rw [← h, pathHead, String.toList_ofList] at hdot
    simpa using List.mem_takeWhile_imp hdot
  · intro h
    have hall : path.toList.takeWhile (· ≠ '.') = path.toList := by
      refine List.takeWhile_eq_self_iff.2 fun c hc => ?_
      have hne : c ≠ '.' := fun he => h (he ▸ hc)
      simpa using hne
    rw [pathHead, hall, String.ofList_toList]

namespace Document

variable {row row' : Document} {path : String}

/-- A lookup depends on the entry under the head of the path alone. -/
theorem lookup_congr (h : Dict.get? row' (pathHead path) = Dict.get? row (pathHead path)) :
    row'.lookup path = row.lookup path := by
  obtain ⟨more, hnames⟩ := pathNames_eq_cons path
  rw [lookup, lookup, hnames]
  cases more with
  | nil => exact h
  | cons name rest => rw [follow, follow, h] <;> simp

theorem lookup_of_missing (h : Dict.get? row (pathHead path) = none) : row.lookup path = none := by
  have hempty : Dict.get? row (pathHead path) = Dict.get? ([] : Document) (pathHead path) := h
  rw [lookup_congr hempty]
  obtain ⟨more, hnames⟩ := pathNames_eq_cons path
  rw [lookup, hnames]
  cases more <;> rfl

/-- A value that is put under the text of a path is found there exactly if the path is its own head. -/
theorem lookup_insert (row : Document) (path : String) (v : Value) :
    Document.lookup (Dict.insert row path v) path = if '.' ∈ path.toList then row.lookup path else some v := by
  split
  · next hdot =>
    -- the head has no dot, so the new entry is not the one that the lookup starts from
    have hne : path ≠ pathHead path := fun he => pathHead_eq_iff.1 he.symm hdot
    exact lookup_congr (Dict.get?_insert_of_ne hne ..)
  · next hdot => rw [lookup_of_undotted hdot, Dict.get?_insert_self]

end Document

/-! ### Projections that keep fields -/

namespace Pipeline

/-- The projection names the field to be kept, and names none to be left out but the primary key. -/
structure Includes (spec : Document) (name : String) : Prop where
  ne_id : name ≠ idField
  named : name ∈ Dict.keys spec
  truthy : ∀ entry ∈ spec, entry.1 ≠ idField → entry.2.isTruthy = true

/-- A projection that keeps named fields has the top-level field in its rows: it names the field, or the field is the
primary key and is not left out. -/
def Shows (spec : Document) (name : String) : Prop :=
  if name = idField then ((Dict.get? spec idField).map Value.isTruthy).getD true = true else name ∈ Dict.keys spec

instance (spec : Document) (name : String) : Decidable (Shows spec name) := by
  unfold Shows
  infer_instance

/-- The fields of a row that a projection keeps named fields of. -/
theorem get?_apply {p : Projecting} (hincludes : p.includes = true) (hid : idField ∉ p.included) (row : Document)
    (name : String) : Dict.get? (p.apply row) name =
      if name = idField then if p.keepsId then Dict.get? row idField else none
      else if name ∈ p.included then Dict.get? row name else none := by
  have hkept : Dict.get? (row.filter fun q => p.included.contains q.1) name =
      if name ∈ p.included then Dict.get? row name else none := by
    rw [Dict.get?_filter]
    simp only [List.contains_iff_mem]
  simp only [Projecting.apply, hincludes, if_true]
  rw [Dict.get?_append, hkept]
  by_cases hname : name = idField
  · subst hname
    rw [if_pos rfl, if_neg hid, Option.or_none]
    cases p.keepsId with
    | false => rfl
    | true => cases hget : Dict.get? row idField <;> simp [Dict.get?_cons]
  · rw [if_neg hname]
    cases p.keepsId with
    | false => rfl
    | true => cases hget : Dict.get? row idField <;> simp [Dict.get?_cons, Ne.symm hname]

theorem exists_shows {spec : Document} {path : String} (h : Includes spec path) :
    ∃ p, Projecting.ofDocument spec = .ok p ∧ ∀ row name,
      Dict.get? (p.apply row) name = if Shows spec name then Dict.get? row name else none := by
  have hincluded := Projecting.mem_truthy h.truthy
  have hpath := (hincluded path).2 ⟨h.ne_id, h.named⟩
  unfold Projecting.ofDocument
  simp only [Projecting.falsy_eq_nil h.truthy, List.isEmpty_nil, Bool.not_true, Bool.and_false, Bool.false_eq_true,
    if_false]
  refine ⟨_, rfl, fun row name => (get?_apply ?_ ?_ row name).trans ?_⟩
  · rw [Bool.or_eq_true, Bool.not_eq_true', List.isEmpty_eq_false_iff]
    exact .inl (List.ne_nil_of_mem hpath)
  · exact fun hmem => ((hincluded idField).1 hmem).1 rfl
  · simp only [hincluded, Shows]
    by_cases hname : name = idField
    · simp [hname]
    · simp [hname]

/-- A lookup in a row of such a projection goes on from the head of its path, if the row still has it. -/
theorem lookup_shows {spec row row' : Document} {path : String}
    (h : ∀ name, Dict.get? row' name = if Shows spec name then Dict.get? row name else none) :
    row'.lookup path = if Shows spec (pathHead path) then row.lookup path else none := by
  have hhead := h (pathHead path)
  split
  · next hshows =>
    rw [if_pos hshows] at hhead
    exact Document.lookup_congr hhead
  · next hhides =>
    rw [if_neg hhides] at hhead
    exact Document.lookup_of_missing hhead

end Pipeline

/-! ### Paths in an update and a projection -/

namespace Store

variable {store after : Store} {fresh : Nat → ObjectId} {collection path : String} {command query : Document}
  {v : Value} {extent : Extent} {answer : Answer}

/-- What an update that succeeds leaves of a document that it is for. -/
theorem Updates.getElem?_target {set : Document} (h : Updates command collection query set extent)
    (hrun : store.execute fresh command = (.ok answer, after)) {i : Nat}
    (hi : Targets query extent (store.documents collection) i) :
    ∃ row, (store.documents collection)[i]? = some row ∧
      (after.documents collection)[i]? = some (Dict.insertAll row set) := by
  have hempty : setMarked set (targets query extent []) [] = [] := by cases extent <;> rfl
  have hdocuments := (h.mutates.carries_of_ok hrun).2.documents hempty
  have hmark := getElem?_targets.2 hi
  obtain ⟨row, hrow, -⟩ := hi
  refine ⟨row, hrow, ?_⟩
  rw [hdocuments, getElem?_setMarked, hrow, hmark]
  rfl

/-- The parts of the store agree on a path without dots. A dotted path that an update assigns to leads to the value
afterwards exactly if it did before, and a projection that names one keeps the value exactly if there is none to
keep, or if the head of the path is shown for another reason. -/
theorem paths_alike (path : String) :
    (∀ (store after : Store) (fresh : Nat → ObjectId) (collection : String) (command query : Document) (v : Value)
      (extent : Extent) (answer : Answer), Updates command collection query [(path, v)] extent →
      store.execute fresh command = (.ok answer, after) →
      ∀ i, Targets query extent (store.documents collection) i →
        ∃ row row', (store.documents collection)[i]? = some row ∧ (after.documents collection)[i]? = some row' ∧
          (row'.lookup path = some v ↔ ('.' ∈ path.toList → row.lookup path = some v))) ∧
    ∀ (spec : Document) (rows : List Document), Pipeline.Includes spec path →
      ∃ projected, Pipeline.runStage "$project" (.document spec) rows = .ok projected ∧
        List.Forall₂ (fun row row' => row'.lookup path = row.lookup path ↔
          ('.' ∈ path.toList → row.lookup path ≠ none → Pipeline.Shows spec (pathHead path))) rows projected := by
  constructor
  · intro store after fresh collection command query v extent answer h hrun i hi
    obtain ⟨row, hrow, hafter⟩ := h.getElem?_target hrun hi
    have hlookup := Document.lookup_insert row path v
    refine ⟨row, Dict.insert row path v, hrow, hafter, ?_⟩
    rw [hlookup]
    split
    · next hdot => simp [hdot]
    · next hdot => simp [hdot]
  · intro spec rows h
    obtain ⟨p, hp, hget⟩ := Pipeline.exists_shows h
    have hshows : '.' ∉ path.toList → Pipeline.Shows spec (pathHead path) := by
      intro hdot
      rw [pathHead_eq_iff.2 hdot, Pipeline.Shows, if_neg h.ne_id]
      exact h.named
    have hrun : Pipeline.runStage "$project" (.document spec) rows = .ok (rows.map p.apply) := by
      have hproject : Pipeline.project rows spec = .ok (rows.map p.apply) := by
        rw [Pipeline.project, hp]
        rfl
      exact hproject
    refine ⟨_, hrun, List.forall₂_map_right_iff.2 (List.forall₂_same.2 fun row _ => ?_)⟩
    rw [Pipeline.lookup_shows (hget row)]
    split
    · next hshown => simp [hshown]
    · next hhidden =>
      have hdot : '.' ∈ path.toList := by_contra fun hdot => hhidden (hshows hdot)
      simp [hdot, hhidden, eq_comm]

/-- A document inside a document. -/
def nested : Store where
  collections := [("t", [[("_id", .int32 1), ("a", .document [("b", .int32 1)])]])]

/-- A field without dots takes a new value, and a projection that shows a field also shows what is inside. -/
theorem paths_alike_nested : ∃ after row' projected,
    nested.execute zeros (Verb.update.command "t" [UpdateSpec.toDocument ⟨[], [("a", .int32 7)], .every⟩]) =
      (.ok (.affected 1), after) ∧
    (after.documents "t")[0]? = some row' ∧ row'.lookup "a" = some (.int32 7) ∧
    Pipeline.runStage "$project" (.document [("a.b", .boolean true), ("a", .boolean true)]) (nested.documents "t") =
      .ok projected ∧
    ∀ row' ∈ projected, row'.lookup "a.b" = some (.int32 1) := by
  have hrun : nested.execute zeros (Verb.update.command "t" [UpdateSpec.toDocument ⟨[], [("a", .int32 7)], .every⟩]) =
      (.ok (.affected 1), _) := Prod.ext (y := (_, _)) rfl rfl
  have htarget : Targets [] .every (nested.documents "t") 0 := ⟨_, rfl, rfl, fun h => nomatch h⟩
  obtain ⟨row, row', -, hrow', hlookup⟩ :=
    (paths_alike "a").1 _ _ _ _ _ _ _ _ _ (updates_command "t" [] .every rfl) hrun 0 htarget
  have hincludes : Pipeline.Includes [("a.b", .boolean true), ("a", .boolean true)] "a.b" :=
    ⟨by decide, by decide, by decide⟩
  obtain ⟨projected, hproject, hrows⟩ := (paths_alike "a.b").2 _ (nested.documents "t") hincludes
  refine ⟨_, row', projected, hrun, hrow', hlookup.2 fun hdot => absurd hdot (by decide), hproject, ?_⟩
  intro row' hmem
  obtain ⟨row, hrow, hkept⟩ := forall₂_mem_right hrows hmem
  obtain rfl := List.mem_singleton.1 hrow
  exact hkept.2 fun _ _ => by decide

/-- An update under a dotted path reaches the document and leaves what the path leads to, and a projection that names
the path leaves it out. -/
theorem paths_apart : ∃ after,
    nested.execute zeros (Verb.update.command "t" [UpdateSpec.toDocument ⟨[], [("a.b", .int32 2)], .every⟩]) =
      (.ok (.affected 1), after) ∧
    after.documents "t" = [[("_id", .int32 1), ("a", .document [("b", .int32 1)]), ("a.b", .int32 2)]] ∧
    Document.lookup [("_id", .int32 1), ("a", .document [("b", .int32 1)]), ("a.b", .int32 2)] "a.b" = some (.int32 1) ∧
    Pipeline.runStage "$project" (.document [("a.b", .boolean true)]) (nested.documents "t") =
      .ok [[("_id", .int32 1)]] ∧
    Document.lookup [("_id", .int32 1), ("a", .document [("b", .int32 1)])] "a.b" = some (.int32 1) ∧
    Document.lookup [("_id", .int32 1)] "a.b" = none :=
  ⟨_, Prod.ext (y := (_, _)) rfl rfl, rfl, rfl, rfl, rfl, rfl⟩

end Store
end RelDoc
