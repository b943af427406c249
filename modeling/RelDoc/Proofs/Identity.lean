import RelDoc.Proofs.Mutation
import RelDoc.Proofs.Reachable

/-!
# Updates of the one document that a filter pins

An UPDATE whose filter pins the primary key is rendered for one document: it stops at the first match. Filters
compare primary keys by `Value.equals` and insertions tell them apart by `Value.same`, which is finer: the
numbers one of two widths are two keys that one filter matches. So a pinned update agrees with the same
update of every match exactly if nothing is overlooked behind the first match (`Store.Overlooked`): no row
that the filter fails for, and no row that it matches under such a key (`Session.execute_pinned_iff`).
-/

namespace RelDoc

open Outcome

/-! ### Marks of the first match -/

section
variable {query : Document} {before rows : List Document} {row : Document}

theorem marks_of_split (hb : ∀ r ∈ before, r.satisfies query = .ok false) (hr : row.satisfies query = .ok true)
    (after : List Document) :
    marks query .first (before ++ row :: after) =
        .ok (before.map (fun _ => false) ++ true :: after.map fun _ => false) ∧
      marks query .every (before ++ row :: after) =
        (do return before.map (fun _ => false) ++ true :: (← marks query .every after)) := by
  induction before with
  | nil =>
    refine ⟨?_, ?_⟩
    · rw [List.nil_append, marks, hr]
      rfl
    · rw [List.nil_append, marks, hr]
      cases marks query .every after <;> rfl
  | cons r rest ih =>
    obtain ⟨hf, he⟩ := ih fun r hr => hb r (List.mem_cons_of_mem _ hr)
    have hfirst := hb r (List.mem_cons_self ..)
    refine ⟨?_, ?_⟩
    · rw [List.cons_append, marks, hfirst, ok_bind, hf]
      rfl
    · rw [List.cons_append, marks, hfirst, ok_bind, he]
      cases marks query .every after <;> rfl

/-- Where nothing matches before an error or the end, both kinds of marks agree. -/
theorem marks_first_cases (query : Document) (rows : List Document) :
    (∃ before row after, rows = before ++ row :: after ∧ (∀ r ∈ before, r.satisfies query = .ok false) ∧
      row.satisfies query = .ok true) ∨ marks query .first rows = marks query .every rows := by
  induction rows with
  | nil => exact .inr rfl
  | cons r rest ih =>
    cases hr : r.satisfies query with
    | error e =>
      right
      rw [marks, marks, hr]
      rfl
    | ok hit =>
      cases hit with
      | true => exact .inl ⟨[], r, rest, rfl, fun _ h => absurd h List.not_mem_nil, hr⟩
      | false =>
        rcases ih with ⟨before, row, after, rfl, hb, hrow⟩ | he
        · refine .inl ⟨r :: before, row, after, rfl, fun x hx => ?_, hrow⟩
          rcases List.mem_cons.1 hx with rfl | hx
          · exact hr
          · exact hb x hx
        · right
          rw [marks, marks, hr, ok_bind, ok_bind, he]
          rfl

/-- If every document can be tested and none is marked, none matches. -/
theorem satisfies_of_count {hits : List Bool} (h : marks query .every rows = .ok hits)
    (hc : hits.count true = 0) : ∀ r ∈ rows, r.satisfies query = .ok false := by
  induction rows generalizing hits with
  | nil => exact fun _ h => absurd h List.not_mem_nil
  | cons r rest ih =>
    rw [marks] at h
    obtain ⟨hit, hr, h⟩ := bind_eq_ok.1 h
    simp only [decide_false, Bool.and_false, Bool.false_eq_true, if_false, reduceCtorEq] at h
    obtain ⟨tail, ht, h⟩ := bind_eq_ok.1 h
    obtain rfl := Except.ok.inj h
    cases hit with
    | true => simp at hc
    | false =>
      rw [List.count_cons_of_ne (by decide)] at hc
      intro x hx
      rcases List.mem_cons.1 hx with rfl | hx
      · exact hr
      · exact ih ht hc x hx

/-- Behind a first match nothing else may match, or fail, for every match to be the first. -/
theorem marks_eq_of_split (hb : ∀ r ∈ before, r.satisfies query = .ok false) (hr : row.satisfies query = .ok true)
    {after : List Document} :
    marks query .first (before ++ row :: after) = marks query .every (before ++ row :: after) ↔
      ∀ r ∈ after, r.satisfies query = .ok false := by
  obtain ⟨hf, he⟩ := marks_of_split hb hr after
  rw [hf, he]
  constructor
  · intro h
    obtain ⟨hits, hhits, h⟩ := bind_eq_ok.1 h.symm
    obtain ⟨-, h⟩ := List.append_inj (Except.ok.inj h) rfl
    obtain ⟨-, rfl⟩ := List.cons.inj h
    exact satisfies_of_count hhits (by simp [List.count_eq_zero])
  · intro h
    rw [marks_every h]
    rfl

end

/-! ### What a pinned filter matches -/

/-- The rows that a test takes have one primary key, as filters compare. -/
def TakesOneKey (test : Document → Except Error Bool) : Prop :=
  ∃ v : Value, v.Distinct ∧ ∀ row, test row = .ok true → ∃ x, Dict.get? row idField = some x ∧ x.equals v = true

theorem TakesOneKey.mono {test test' : Document → Except Error Bool} (h : TakesOneKey test)
    (himp : ∀ row, test' row = .ok true → test row = .ok true) : TakesOneKey test' := by
  obtain ⟨v, hv, hrow⟩ := h
  exact ⟨v, hv, fun row hr => hrow row (himp row hr)⟩

theorem satisfiesAll_cons {row first : Document} {rest : List Value}
    (h : row.satisfiesAll (.document first :: rest) = .ok true) :
    row.satisfies first = .ok true ∧ row.satisfiesAll rest = .ok true := by
  rw [Document.satisfiesAll] at h
  obtain ⟨hit, hfirst, h⟩ := bind_eq_ok.1 h
  cases hit with
  | true => exact ⟨hfirst, h⟩
  | false => simp at h

namespace Dialect

variable {d : Dialect} {t : Table} {σ : Nat → Value}

theorem takesOneKey_comparison {path : FieldPath} {o : QueryOperator} {term : Term} (hv : (term.fill σ).Distinct)
    (hpin : (Filter.comparison path o term).pinsId = true) :
    TakesOneKey fun row => row.satisfies ((Filter.comparison path o term).fill σ) := by
  rw [Filter.pinsId, Bool.and_eq_true, decide_eq_true_iff] at hpin
  obtain ⟨rfl, hid⟩ := hpin
  have hid : path.text = idField := by simpa [FieldPath.isId] using hid
  refine ⟨_, hv, fun row (hr : row.satisfies ((Filter.comparison path .eq term).fill σ) = .ok true) => ?_⟩
  rw [Filter.fill, row.satisfies_comparison (by rw [hid]; rfl), hid,
    Document.lookup_of_undotted (by decide)] at hr
  cases hx : Dict.get? row idField with
  | none => simp [hx, QueryOperator.holds] at hr
  | some x =>
    rw [hx] at hr
    exact ⟨x, rfl, Except.ok.inj hr⟩

mutual
/-- The rows that a pinned filter matches have one primary key, as filters compare. -/
theorem pinned_filter (hc : d.codec.Distinct) (hσ : ∀ n, (σ n).Distinct) : ∀ {p : Predicate} {f : Filter},
    Direct.filter d (some t) p = .ok f → f.pinsId = true → TakesOneKey fun row => row.satisfies (f.fill σ)
  | .comparison c left right, f, h, hpin => by
    rw [Direct.filter] at h
    obtain ⟨path, o, term, rfl, ⟨-, -, hv⟩ | ⟨-, hv, -⟩⟩ := Direct.comparison_eq_ok h
    · exact takesOneKey_comparison (hv.distinct hc hσ) hpin
    · exact takesOneKey_comparison (hv.distinct hc hσ) hpin
  | .junction kind parts, f, h, hpin => by
    rw [Direct.filter] at h
    obtain ⟨fs, hfs, h⟩ := bind_eq_ok.1 h
    obtain ⟨-, rfl⟩ := Filter.combine_eq_ok h
    rw [Filter.pinsId, Bool.and_eq_true, decide_eq_true_iff] at hpin
    refine (pinned_filters hc hσ hfs hpin.2).mono fun row hr => ?_
    rwa [Filter.fill, hpin.1, row.satisfies_combination] at hr
  | .negated p, f, h, hpin => by
    rw [Direct.filter] at h
    obtain ⟨inner, hi, h⟩ := bind_eq_ok.1 h
    obtain ⟨-, rfl⟩ := Filter.combine_eq_ok h
    rw [Filter.pinsId] at hpin
    simp at hpin
  | .grouped p, f, h, hpin => by
    rw [Direct.filter] at h
    exact pinned_filter hc hσ h hpin
  | .nullness .., f, h, _ | .membership .., f, h, _ | .pattern .., f, h, _ | .between .., f, h, _ => by
    simp [Direct.filter] at h

/-- One pinned part of a conjunction is enough. -/
theorem pinned_filters (hc : d.codec.Distinct) (hσ : ∀ n, (σ n).Distinct) :
    ∀ {ps : List Predicate} {fs : List Filter}, Direct.filters d (some t) ps = .ok fs →
      Filter.anyPinsId fs = true → TakesOneKey fun row => row.satisfiesAll (Filter.fillList σ fs)
  | [], fs, h, hpin => by
    rw [Direct.filters] at h
    obtain rfl := Except.ok.inj h
    simp [Filter.anyPinsId] at hpin
  | p :: rest, fs, h, hpin => by
    rw [Direct.filters] at h
    obtain ⟨f, hf, h⟩ := bind_eq_ok.1 h
    obtain ⟨more, hm, h⟩ := bind_eq_ok.1 h
    obtain rfl := Except.ok.inj h
    rw [Filter.anyPinsId, Bool.or_eq_true] at hpin
    simp only [Filter.fillList]
    rcases hpin with hpin | hpin
    · exact (pinned_filter hc hσ hf hpin).mono fun row hr => (satisfiesAll_cons hr).1
    · exact (pinned_filters hc hσ hm hpin).mono fun row hr => (satisfiesAll_cons hr).2
end

end Dialect

/-! ### The first match and every match -/

namespace Document

/-- The updates of a command with `multi` set. -/
def multiUpdates : Value → Value
  | .array items => .array (items.map fun
    | .document spec => .document (Dict.insert spec "multi" (.boolean true))
    | v => v)
  | v => v

/-- The command document that updates every match. -/
def everyMatch (command : Document) : Document :=
  command.map fun p => (p.1, if p.1 = "updates" then multiUpdates p.2 else p.2)

end Document

namespace Store

/-- Something behind the first match that an update of that match alone does not notice: a row that the filter
fails for, or one that it matches although the primary keys are two as stored values go. -/
def Overlooked (query : Document) (rows : List Document) : Prop :=
  ∃ (before : List Document) (row : Document) (after : List Document) (other : Document),
    rows = before ++ row :: after ∧ (∀ r ∈ before, r.satisfies query = .ok false) ∧
    row.satisfies query = .ok true ∧ other ∈ after ∧
    ((∃ e, other.satisfies query = .error e) ∨
      (other.satisfies query = .ok true ∧ ∃ x y, Dict.get? row idField = some x ∧
        Dict.get? other idField = some y ∧ x.equals y = true ∧ x.same y = false))

variable {fresh : Nat → ObjectId} {store : Store} {σ : Nat → Value} {collection : String} {f : Filter}
  {us : List FieldUpdate}

theorem updateOnce_eq_marks (hid : ∀ u ∈ us, u.field.isId = false) (multi : Bool) (rows : List Document) :
    updateOnce (updateSpec σ f us multi) rows = (do
      let hits ← marks (f.fill σ) (if multi then .every else .first) rows
      return (hits.count true, setMarked (us.map fun u => (u.field.text, u.value.fill σ)) hits rows)) := by
  rw [updateOnce, ofDocument_updateSpec hid, ok_bind]

theorem asks_everyMatch :
    Asks ((Command.update collection f us).fill σ).everyMatch .update collection [updateSpec σ f us true] :=
  asks_pair .update collection [updateSpec σ f us true]

/-- The update of the first match agrees with that of every match exactly if their marks do. -/
theorem execute_everyMatch_iff (hid : ∀ u ∈ us, u.field.isId = false) (hpin : f.pinsId = true) :
    store.execute fresh ((Command.update collection f us).fill σ).everyMatch =
        store.execute fresh ((Command.update collection f us).fill σ) ↔
      marks (f.fill σ) .first (store.documents collection) =
        marks (f.fill σ) .every (store.documents collection) := by
  rw [execute_of_asks asks_everyMatch, execute_of_asks (asks_update σ collection f us), hpin, Bool.not_true,
    Verb.run_of_step rfl, Verb.run_of_step rfl, change_single, change_single, documents]
  cases Dict.get? store.collections collection with
  | none => exact iff_of_true rfl rfl
  | some ds =>
    simp only [Option.getD_some, updateOnce_eq_marks hid, if_true, Bool.false_eq_true, if_false]
    constructor
    · intro h
      rcases marks_first_cases (f.fill σ) ds with ⟨before, row, after, rfl, hb, hr⟩ | hm
      · -- the counts already tell: the first match counts one, and every match one and those after it
        obtain ⟨hf, he⟩ := marks_of_split hb hr after
        rw [hf, he] at h
        cases hmore : marks (f.fill σ) .every after with
        | error e => simp [hmore] at h
        | ok more =>
          have hcount : more.count true = 0 := by
            simpa [hmore, List.count_replicate] using (Prod.mk.inj h).1
          exact (marks_eq_of_split hb hr).2 (satisfies_of_count hmore hcount)
      · exact hm
    · intro hm
      rw [hm]

/-- With keyed rows and a filter that pins their key, the first match is every match exactly if nothing is
overlooked. -/
theorem marks_eq_iff {query : Document} {rows : List Document} (hk : KeyedRows rows)
    (hone : TakesOneKey fun row => row.satisfies query) :
    marks query .first rows = marks query .every rows ↔ ¬ Overlooked query rows := by
  obtain ⟨v, hv, hpin⟩ := hone
  constructor
  · rintro hm ⟨before, row, after, other, rfl, hb, hr, ho, hbad⟩
    have hfalse := (marks_eq_of_split hb hr).1 hm other ho
    rcases hbad with ⟨e, he⟩ | ⟨htrue, -⟩
    · simp [he] at hfalse
    · simp [htrue] at hfalse
  · intro hno
    rcases marks_first_cases query rows with ⟨before, row, after, rfl, hb, hr⟩ | hm
    · refine (marks_eq_of_split hb hr).2 fun other ho => ?_
      have hover (h : (∃ e, other.satisfies query = .error e) ∨ (other.satisfies query = .ok true ∧
          ∃ x y, Dict.get? row idField = some x ∧ Dict.get? other idField = some y ∧ x.equals y = true ∧
            x.same y = false)) : False := hno ⟨before, row, after, other, rfl, hb, hr, ho, h⟩
      rcases hs : other.satisfies query with e | hit
      · exact (hover (.inl ⟨e, hs⟩)).elim
      · cases hit with
        | false => rfl
        | true =>
          -- filters compare both keys equal to the pinned value, so only `same` can tell them apart
          obtain ⟨x, hx, hxv⟩ := hpin row hr
          obtain ⟨y, hy, hyv⟩ := hpin other hs
          have hother : other ∈ before ++ row :: after := List.mem_append_right _ (List.mem_cons_of_mem _ ho)
          have hyd : y.Distinct := (hk.distinct other hother).get? hy
          have hxy : x.equals y = true := Value.equals_trans hxv (Value.equals_symm hyd hv hyv)
          have hapart : Apart (Dict.get? row idField) (Dict.get? other idField) := by
            have hp := hk.apart
            rw [rowIds, List.map_append, List.map_cons, List.pairwise_append, List.pairwise_cons] at hp
            exact hp.2.1.1 _ (List.mem_map.2 ⟨other, ho, rfl⟩)
          rw [hx, hy] at hapart
          exact (hover (.inr ⟨hs, x, y, hx, hy, hxy, hapart⟩)).elim
    · exact hm

end Store

/-! ### Statements -/

namespace Session

variable {d : Dialect} {s : Update} {c : Command} {parameters : List Scalar} {command : Document}
  {fresh : Nat → ObjectId} {store : Store}

/-- A rendered update of one document, taken apart. -/
structure Pinned (d : Dialect) (s : Update) (c : Command) (parameters : List Scalar) (command : Document) where
  collection : String
  filter : Filter
  updates : List FieldUpdate
  values : List Value
  predicate : Predicate
  command_eq : c = .update collection filter updates
  values_eq : encodeAll d.codec parameters = .ok values
  document_eq : command = c.fill (valuesAt values)
  filter_eq : Direct.filter d (some s.table) predicate = .ok filter
  pinsId : filter.pinsId = true
  others : ∀ u ∈ updates, u.field.isId = false

theorem pinned_of_render (hplan : d.commandOf (.update s) = .ok c) (hpin : c.isSingle? = some true)
    (hr : render d (.update s) parameters = .ok command) : Nonempty (Pinned d s c parameters command) := by
  rw [d.commandOf_eq] at hplan
  obtain ⟨c', values, hplan', hv, -, rfl⟩ := render_eq_ok.1 hr
  obtain rfl := Except.ok.inj (hplan.symm.trans hplan')
  obtain ⟨collection, f, us, -, hf, hu, -, rfl⟩ := Direct.updateCommand_eq_ok hplan
  have hpin : f.pinsId = true := Option.some.inj hpin
  have hid := Direct.updates_others hu
  cases hres : s.restriction with
  | none =>
    rw [hres] at hf
    obtain rfl := Except.ok.inj hf
    simp [Filter.pinsId] at hpin
  | some p =>
    rw [hres] at hf
    exact ⟨⟨collection, f, us, values, p, rfl, hv, rfl, hf, hpin, hid⟩⟩

theorem Pinned.execute_iff (p : Pinned d s c parameters command) (hc : d.codec.Distinct)
    (hs : Store.Reachable fresh store) : store.execute fresh command.everyMatch = store.execute fresh command ↔
      ¬ Store.Overlooked (p.filter.fill (valuesAt p.values)) (store.documents p.collection) := by
  obtain ⟨collection, f, us, values, q, rfl, hvalues, rfl, hf, hpin, hid⟩ := p
  have hσ := distinct_valuesAt (distinct_encodeAll hc hvalues)
  rw [Store.execute_everyMatch_iff hid hpin]
  exact Store.marks_eq_iff (hs.keyed.documents collection) (Dialect.pinned_filter hc hσ hf hpin)

/-- On every store that commands lead to, a rendered update of one document does what the same command does
for every match exactly if nothing is overlooked behind the first match. -/
theorem execute_pinned_iff (hc : d.codec.Distinct) (hplan : d.commandOf (.update s) = .ok c)
    (hpin : c.isSingle? = some true) (hr : render d (.update s) parameters = .ok command)
    (hs : Store.Reachable fresh store) : ∃ collection f us values, c = .update collection f us ∧
      encodeAll d.codec parameters = .ok values ∧
      (store.execute fresh command.everyMatch = store.execute fresh command ↔
        ¬ Store.Overlooked (f.fill (valuesAt values)) (store.documents collection)) := by
  obtain ⟨p⟩ := pinned_of_render hplan hpin hr
  exact ⟨p.collection, p.filter, p.updates, p.values, p.command_eq, p.values_eq, p.execute_iff hc hs⟩

/-- Where filters do not fail and take no two primary keys of the collection for one, one document is all. -/
theorem execute_pinned (hp : d.catalog.Plain) (hc : d.codec.Distinct) (hplan : d.commandOf (.update s) = .ok c)
    (hpin : c.isSingle? = some true) (hr : render d (.update s) parameters = .ok command)
    (hs : Store.Reachable fresh store)
    (hids : ∀ row ∈ store.documents c.collection, ∀ other ∈ store.documents c.collection, ∀ x y,
      Dict.get? row idField = some x → Dict.get? other idField = some y → x.equals y = true → x.same y = true) :
    store.execute fresh command.everyMatch = store.execute fresh command := by
  obtain ⟨p⟩ := pinned_of_render hplan hpin hr
  have hcoll : c.collection = p.collection := congrArg Command.collection p.command_eq
  rw [hcoll] at hids
  refine (p.execute_iff hc hs).2 ?_
  rintro ⟨before, row, after, other, he, -, -, ho, hbad⟩
  have hrow : row ∈ store.documents p.collection := by
    rw [he]
    exact List.mem_append_right _ (List.mem_cons_self ..)
  have hother : other ∈ store.documents p.collection := by
    rw [he]
    exact List.mem_append_right _ (List.mem_cons_of_mem _ ho)
  rcases hbad with ⟨e, hfail⟩ | ⟨-, x, y, hx, hy, hxy, hne⟩
  · have hσ := distinct_valuesAt (distinct_encodeAll hc p.values_eq)
    have hd := (hs.keyed.documents p.collection).distinct other hother
    rw [Dialect.satisfies_fill hp hc hσ hd p.filter_eq] at hfail
    simp at hfail
  · rw [hids row hrow other hother x y hx hy hxy] at hne
    simp at hne

end Session

/-- The store after the numbers one of two widths have been inserted as primary keys. -/
def Store.twins : Store where
  collections := [("persons", [[("_id", .int32 1)], [("_id", .int64 1)]])]

theorem Store.reachable_twins (fresh : Nat → ObjectId) : Reachable fresh twins := by
  have hd : (Value.document [("insert", .string "persons"),
      ("documents", .array [.document [("_id", .int32 1)], .document [("_id", .int64 1)]])]).Distinct := by
    simp [Value.Distinct, Value.DistinctItems, Value.DistinctFields]
  exact Reachable.step .empty hd

/-- `UPDATE people SET age = 30 WHERE id = ?` -/
def Update.one : Update where
  table := ⟨"people", none⟩
  assignments := [⟨⟨none, "age"⟩, .literal (.int32 30)⟩]
  restriction := some (.comparison .equal (.column ⟨none, "id"⟩) (.parameter 0))

/-- The command of the update. -/
def Command.one : Command :=
  .update "persons" (.comparison ⟨"_id"⟩ .eq (.placeholder 0)) [⟨⟨"years"⟩, .literal (.int32 30)⟩]

namespace Session

theorem commandOf_one : Dialect.people.commandOf (.update .one) = .ok .one :=
  (Dialect.people.commandOf_eq _).trans rfl

theorem render_one : render .people (.update .one) [.int32 1] = .ok (Command.one.fill (valuesAt [.int32 1])) := by
  have hv : encodeAll Dialect.people.codec [.int32 1] = .ok [.int32 1] := rfl
  refine render_eq_ok.2 ⟨.one, [.int32 1], rfl, hv, ?_, rfl⟩
  simp [Command.one, Command.positions, Filter.positions, Term.positions]

/-- The update stops at the first of two rows with the primary key one, and the update of every match finds
both. -/
theorem execute_one_twins : Dialect.people.commandOf (.update .one) = .ok .one ∧
    Command.one.isSingle? = some true ∧
    render .people (.update .one) [.int32 1] = .ok (Command.one.fill (valuesAt [.int32 1])) ∧
    Store.Reachable Store.zeros .twins ∧
    (Store.twins.execute Store.zeros (Command.one.fill (valuesAt [.int32 1]))).1 = .ok (.affected 1) ∧
    (Store.twins.execute Store.zeros (Command.one.fill (valuesAt [.int32 1])).everyMatch).1 = .ok (.affected 2) :=
  ⟨commandOf_one, rfl, render_one, Store.reachable_twins _, rfl, rfl⟩

theorem execute_pinned_iff_one :
    Store.twins.execute Store.zeros (Command.one.fill (valuesAt [.int32 1])).everyMatch ≠
      Store.twins.execute Store.zeros (Command.one.fill (valuesAt [.int32 1])) := by
  obtain ⟨collection, f, us, values, hc, hv, hiff⟩ := execute_pinned_iff Codec.distinct_exact commandOf_one rfl
    render_one (Store.reachable_twins Store.zeros)
  obtain ⟨rfl, rfl, rfl⟩ := Command.update.inj hc
  have hv' : encodeAll Dialect.people.codec [.int32 1] = .ok [.int32 1] := rfl
  obtain rfl := Except.ok.inj (hv'.symm.trans hv)
  intro h
  refine hiff.1 h ⟨[], [("_id", .int32 1)], [[("_id", .int64 1)]], [("_id", .int64 1)], rfl, ?_, rfl,
    List.mem_singleton.2 rfl, .inr ⟨rfl, .int32 1, .int64 1, rfl, rfl, rfl, rfl⟩⟩
  exact fun r hr => absurd hr List.not_mem_nil

end Session
end RelDoc
