import RelDoc.Proofs.Reachable
import RelDoc.Proofs.Targets

/-!
# What an update leaves alone

An update carries its specifications out one after another: it is a run of updates of one specification each, every
one on the store that the one before it left (`Store.Runs`, `Store.runs_of_applySpecs`). Which documents
a specification comes to is decided by that store (`Targets`), and they are given the fields that it assigns
(`Store.Assigned`). So a field of the document at a place is safe if no specification that comes to the place, as it
finds the collection, names the field (`Store.Spares`). What one specification leaves alone (`Store.Assigned.framed`)
then adds up along the run (`Store.Runs.framed`).
-/

namespace RelDoc

open Outcome

/-! ### Documents with more fields -/

theorem Dict.keys_prefix_insertAll {α : Type} (d : Dict α) (pairs : List (String × α)) :
    Dict.keys d <+: Dict.keys (Dict.insertAll d pairs) := by
  induction pairs generalizing d with
  | nil => exact List.prefix_rfl
  | cons p rest ih =>
    have hfirst : Dict.keys d <+: Dict.keys (Dict.insert d p.1 p.2) := by
      rw [Dict.keys_insert]
      split
      · exact List.prefix_rfl
      · exact List.prefix_append ..
    exact hfirst.trans (ih _)

/-- The document has become another with the same primary key: every field it had is in its place, and the spared
fields are as they were. -/
structure Document.Extends (spared : String → Prop) (row row' : Document) : Prop where
  id : Dict.get? row' idField = Dict.get? row idField
  keys : Dict.keys row <+: Dict.keys row'
  get? : ∀ name, spared name → Dict.get? row' name = Dict.get? row name

namespace Document.Extends

variable {spared spared' : String → Prop} {row row' row'' : Document}

theorem refl (spared : String → Prop) (row : Document) : Extends spared row row :=
  ⟨rfl, List.prefix_rfl, fun _ _ => rfl⟩

theorem trans (h : Extends spared row row') (h' : Extends spared' row' row'') :
    Extends (fun name => spared name ∧ spared' name) row row'' :=
  ⟨h'.id.trans h.id, h.keys.trans h'.keys, fun name hs => (h'.get? name hs.2).trans (h.get? name hs.1)⟩

theorem mono (h : Extends spared row row') (hs : ∀ name, spared' name → spared name) : Extends spared' row row' :=
  ⟨h.id, h.keys, fun name hn => h.get? name (hs name hn)⟩

theorem insertAll {set : Document} (hc : Dict.contains set idField = false) (row : Document) :
    Extends (· ∉ Dict.keys set) row (Dict.insertAll row set) where
  id := Store.get?_insertAll_of_not_mem (fun hk => by simp [Dict.contains_iff.2 hk] at hc) row
  keys := Dict.keys_prefix_insertAll row set
  get? _ hn := Store.get?_insertAll_of_not_mem hn row

end Document.Extends

namespace Store

variable {fresh : Nat → ObjectId} {store mid after : Store} {collection : String} {spec : Document}
  {specs : List Document}

/-! ### Stores with the same documents -/

theorem changed_refl (store : Store) (collection : String) :
    Changed store store collection fun _ => store.documents collection := by
  refine ⟨rfl, rfl, fun name => ?_⟩
  split
  · next hname =>
    rw [hname, documents]
    cases Dict.get? store.collections collection <;> rfl
  · rfl

/-- Nothing but documents of the collection has changed, and they are as many as before, each where it was. What is
spared of a document depends on its place. -/
structure Framed (before after : Store) (collection : String) (spared : Nat → String → Prop) : Prop where
  elsewhere : Changed before after collection fun _ => after.documents collection
  length : (after.documents collection).length = (before.documents collection).length
  rows : ∀ (i : Nat) (row : Document), (before.documents collection)[i]? = some row →
    ∃ row', (after.documents collection)[i]? = some row' ∧ row.Extends (spared i) row'

namespace Framed

variable {spared spared' : Nat → String → Prop}

theorem refl (store : Store) (collection : String) (spared : Nat → String → Prop) :
    Framed store store collection spared where
  elsewhere := changed_refl store collection
  length := rfl
  rows _ row hrow := ⟨row, hrow, .refl _ row⟩

theorem trans (h : Framed store mid collection spared) (h' : Framed mid after collection spared') :
    Framed store after collection fun i name => spared i name ∧ spared' i name where
  elsewhere := by
    refine ⟨h'.elsewhere.issued.trans h.elsewhere.issued, h'.elsewhere.keys.trans h.elsewhere.keys, fun name => ?_⟩
    rw [h'.elsewhere.get?, h.elsewhere.get?]
    split
    · rw [Option.map_map]
      rfl
    · rfl
  length := h'.length.trans h.length
  rows i row hrow := by
    -- the document keeps its place, so the second step is asked about the same one
    obtain ⟨row', hrow', hext⟩ := h.rows i row hrow
    obtain ⟨row'', hrow'', hext'⟩ := h'.rows i row' hrow'
    exact ⟨row'', hrow'', hext.trans hext'⟩

theorem mono (h : Framed store after collection spared) (hs : ∀ i name, spared' i name → spared i name) :
    Framed store after collection spared' :=
  ⟨h.elsewhere, h.length, fun i row hrow => (h.rows i row hrow).imp fun _ hr => ⟨hr.1, hr.2.mono (hs i)⟩⟩

end Framed

/-! ### One specification -/

/-- The update of a collection by one specification. -/
def updating (collection : String) (spec : Document) : Document := Verb.update.command collection [spec]

/-- How many documents of the collection a specification of an update is for. -/
def matched (store : Store) (collection : String) (spec : Document) : Nat :=
  match UpdateSpec.ofDocument spec with
  | .ok u => u.extent.count ((store.documents collection).countP (Document.isHit u.filter))
  | .error _ => 0

/-- The specification does not name the field if it comes to the document at the place. -/
def SparesNow (store : Store) (collection : String) (place : Nat) (name : String) (spec : Document) : Prop :=
  ∀ u, UpdateSpec.ofDocument spec = .ok u →
    Targets u.filter u.extent (store.documents collection) place → name ∉ Dict.keys u.set

theorem execute_updating (fresh : Nat → ObjectId) (store : Store) (collection : String) (spec : Document) :
    store.execute fresh (updating collection spec) = store.change updateOnce collection [spec] := by
  rw [updating, Verb.command, execute_of_asks (asks_pair .update collection [spec]), Verb.run_of_step rfl]

theorem matched_missing (h : Dict.get? store.collections collection = none) (spec : Document) :
    store.matched collection spec = 0 := by
  rw [matched, documents, h]
  cases UpdateSpec.ofDocument spec with
  | error e => rfl
  | ok u => exact u.extent.count_zero

theorem execute_updating_missing (h : Dict.get? store.collections collection = none) (fresh : Nat → ObjectId)
    (spec : Document) :
    store.execute fresh (updating collection spec) = (.ok (.affected (store.matched collection spec)), store) := by
  rw [execute_updating, change_single, h, matched_missing h]

theorem execute_updating_ok {rows rows' : List Document} {n : Nat}
    (hg : Dict.get? store.collections collection = some rows) (h : updateOnce spec rows = .ok (n, rows'))
    (fresh : Nat → ObjectId) : n = store.matched collection spec ∧
      store.execute fresh (updating collection spec) =
        (.ok (.affected (store.matched collection spec)), store.withDocuments collection rows') := by
  have hn : n = store.matched collection spec := by
    obtain ⟨u, hu, hn, -⟩ := updateOnce_eq_ok h
    rw [matched, hu, documents, hg]
    exact hn
  refine ⟨hn, ?_⟩
  simp only [execute_updating, change_single, hg, h, ← hn]

/-- What one specification does. The documents that it comes to are given the fields that it assigns, a field they have
in its place and the others at the end; nothing else changes. -/
structure Assigned (before after : Store) (collection : String) (spec : Document) : Prop where
  elsewhere : Changed before after collection fun _ => after.documents collection
  length : (after.documents collection).length = (before.documents collection).length
  rows : ∀ (i : Nat) (row : Document), (before.documents collection)[i]? = some row →
    ∃ u, UpdateSpec.ofDocument spec = .ok u ∧ (after.documents collection)[i]? =
      some (if Targets u.filter u.extent (before.documents collection) i then Dict.insertAll row u.set else row)

/-- The documents are assigned to where they are marked, and the marks are those of the targets. -/
theorem assigned_setMarked {u : UpdateSpec} (hu : UpdateSpec.ofDocument spec = .ok u) {rows : List Document}
    (hg : Dict.get? store.collections collection = some rows) :
    Assigned store (store.withDocuments collection (setMarked u.set (targets u.filter u.extent rows) rows))
      collection spec := by
  have hbefore : store.documents collection = rows := by rw [documents, hg]; rfl
  have hafter (rows' : List Document) : (store.withDocuments collection rows').documents collection = rows' := by
    rw [documents_withDocuments, if_pos rfl]
  refine ⟨?_, by rw [hafter, length_setMarked, hbefore], fun i row hrow => ⟨u, hu, ?_⟩⟩
  · rw [hafter]
    exact changed_withDocuments hg fun _ => setMarked u.set (targets u.filter u.extent rows) rows
  · rw [hbefore] at hrow
    rw [hafter, getElem?_setMarked, hrow, hbefore, Option.map_some]
    simp only [getElem?_targets]

theorem assigned_updating {answer : Answer}
    (h : store.execute fresh (updating collection spec) = (.ok answer, after)) :
    Assigned store after collection spec := by
  cases hg : Dict.get? store.collections collection with
  | none =>
    rw [execute_updating_missing hg] at h
    obtain rfl := (Prod.mk.inj h).2
    refine ⟨changed_refl store collection, rfl, fun i row hrow => ?_⟩
    simp [documents, hg] at hrow
  | some rows =>
    cases hstep : updateOnce spec rows with
    | error e =>
      rw [execute_updating, change_of_error hg hstep] at h
      simp at h
    | ok result =>
      rw [(execute_updating_ok hg hstep fresh).2] at h
      obtain rfl := (Prod.mk.inj h).2
      obtain ⟨u, hu, -, hrows⟩ := updateOnce_eq_ok hstep
      rw [hrows]
      exact assigned_setMarked hu hg

/-- What one specification leaves alone: the other documents, and in those that it comes to all fields that it does not
name. -/
theorem Assigned.framed (h : Assigned store after collection spec) :
    Framed store after collection fun i name => store.SparesNow collection i name spec := by
  refine ⟨h.elsewhere, h.length, fun i row hrow => ?_⟩
  obtain ⟨u, hu, hafter⟩ := h.rows i row hrow
  obtain ⟨-, -, -, hc⟩ := UpdateSpec.ofDocument_parts hu
  refine ⟨_, hafter, ?_⟩
  split
  · next htargets => exact (Document.Extends.insertAll hc row).mono fun name hs => hs u hu htargets
  · exact .refl _ row

/-! ### A run of specifications -/

/-- The specifications are carried out one after another, each as an update of its own on the store that the one
before it left, which assigns its fields in the documents that it comes to there; the number is that of the documents
that they are for. -/
inductive Runs (fresh : Nat → ObjectId) (collection : String) : Store → List Document → Nat → Store → Prop
  | nil (store : Store) : Runs fresh collection store [] 0 store
  | cons {store mid after : Store} {spec : Document} {rest : List Document} {n : Nat}
      (head : store.execute fresh (updating collection spec) =
        (.ok (.affected (store.matched collection spec)), mid))
      (assigned : Assigned store mid collection spec)
      (tail : Runs fresh collection mid rest n after) :
      Runs fresh collection store (spec :: rest) (store.matched collection spec + n) after

/-- No specification names the field when it comes to the document at the place, all of them carried out in turn. -/
def Spares (fresh : Nat → ObjectId) (collection : String) (place : Nat) (name : String) :
    Store → List Document → Prop
  | _, [] => True
  | store, spec :: rest => store.SparesNow collection place name spec ∧
      Spares fresh collection place name (store.execute fresh (updating collection spec)).2 rest

theorem Runs.framed {n : Nat} (h : Runs fresh collection store specs n after) :
    Framed store after collection fun i name => Spares fresh collection i name store specs := by
  induction h with
  | nil store => exact .refl ..
  | cons head assigned _ ih =>
    refine (assigned.framed.trans ih).mono fun i name hs => ?_
    rwa [Spares, head] at hs

theorem runs_missing (h : Dict.get? store.collections collection = none) (specs : List Document) :
    Runs fresh collection store specs 0 store := by
  induction specs with
  | nil => exact .nil store
  | cons spec rest ih =>
    have hhead := execute_updating_missing h fresh spec
    have hruns := Runs.cons hhead (assigned_updating hhead) ih
    rwa [matched_missing h] at hruns

/-- The total so far is what the specifications before these were for. -/
theorem runs_of_applySpecs (fresh : Nat → ObjectId) {rows rows' : List Document} {total n : Nat}
    (hg : Dict.get? store.collections collection = some rows)
    (h : applySpecs updateOnce total rows specs = (.ok n, rows')) :
    ∃ m, n = total + m ∧ Runs fresh collection store specs m (store.withDocuments collection rows') := by
  induction specs generalizing store rows total with
  | nil =>
    obtain ⟨hn, rfl⟩ := Prod.mk.inj h
    obtain rfl := Except.ok.inj hn
    rw [withDocuments, Dict.insert_of_get?_eq_some hg]
    exact ⟨0, rfl, .nil store⟩
  | cons spec rest ih =>
    rw [applySpecs] at h
    split at h
    · simp at h
    · next k mid hstep =>
      obtain ⟨rfl, hhead⟩ := execute_updating_ok hg hstep fresh
      -- the rest runs on the store that this specification leaves, where the collection has the rows `mid`
      have hmid : Dict.get? (store.withDocuments collection mid).collections collection = some mid :=
        Dict.get?_insert_self ..
      obtain ⟨m, hn, htail⟩ := ih hmid h
      rw [withDocuments, withDocuments, Dict.insert_insert] at htail
      exact ⟨_, hn.trans (Nat.add_assoc ..), .cons hhead (assigned_updating hhead) htail⟩

/-- An update that succeeds has carried its specifications out in turn. -/
theorem runs_of_asks {command : Document} {answer : Answer} (ha : Asks command .update collection specs)
    (h : store.execute fresh command = (.ok answer, after)) :
    ∃ n, answer = .affected n ∧ Runs fresh collection store specs n after := by
  rw [execute_of_asks ha, Verb.run_of_step rfl, change] at h
  cases hg : Dict.get? store.collections collection with
  | none =>
    rw [hg] at h
    obtain ⟨hanswer, rfl⟩ := Prod.mk.inj h
    exact ⟨0, (Except.ok.inj hanswer).symm, runs_missing hg specs⟩
  | some rows =>
    rw [hg] at h
    obtain ⟨hanswer, rfl⟩ := Prod.mk.inj h
    cases hrun : applySpecs updateOnce 0 rows specs with
    | mk outcome rows' =>
      rw [hrun] at hanswer
      cases outcome with
      | error e => simp [Except.map] at hanswer
      | ok n =>
        obtain ⟨m, hn, hruns⟩ := runs_of_applySpecs fresh hg hrun
        rw [Nat.zero_add] at hn
        exact ⟨m, hn ▸ (Except.ok.inj hanswer).symm, hruns⟩

/-- An update that succeeds does what its specifications do one after another, each assigning its fields in the documents
that it comes to in the store that the one before it left, and answers with the number of the documents that they are
for. It leaves every other collection alone, the number and order of the documents, their primary keys, the place of
every field, and of each document the fields that no specification names that comes to it. -/
theorem execute_update {v : Value} {rest : Document} {answer : Answer}
    (h : store.execute fresh (("update", v) :: rest) = (.ok answer, after)) :
    ∃ collection specs n, Asks (("update", v) :: rest) .update collection specs ∧ answer = .affected n ∧
      Runs fresh collection store specs n after ∧
      Framed store after collection fun i name => Spares fresh collection i name store specs := by
  rcases asks_or_refused (("update", v) :: rest) with ⟨verb, collection, specs, ha⟩ | ⟨e, -, hrefused⟩
  · have hverb : verb = .update := by
      obtain ⟨more, hhead, -⟩ := ha
      exact Verb.name_inj (Prod.mk.inj (List.cons.inj hhead).1).1.symm
    subst hverb
    obtain ⟨n, hanswer, hruns⟩ := runs_of_asks ha h
    exact ⟨collection, specs, n, ha, hanswer, hruns, hruns.framed⟩
  · rw [hrefused] at h
    simp at h

/-- Two specifications for the documents with the number two: the first gives another number to the first of them,
which the second does not find any more. -/
def renumberings : List Document :=
  [UpdateSpec.toDocument ⟨[("n", .int32 2)], [("n", .int32 5)], .first⟩,
    UpdateSpec.toDocument ⟨[("n", .int32 2)], [("m", .null)], .every⟩]

/-- Each of them is for one document, and the last document keeps its number. -/
theorem execute_renumberings : ∃ after row',
    pairs.execute zeros (Verb.update.command "t" renumberings) = (.ok (.affected 2), after) ∧
    Runs zeros "t" pairs renumberings 2 after ∧ (after.documents "t")[2]? = some row' ∧
    Dict.get? row' "n" = some (.int32 2) := by
  have hrun : pairs.execute zeros (Verb.update.command "t" renumberings) = (.ok (.affected 2), _) :=
    Prod.ext (y := (_, _)) rfl rfl
  obtain ⟨collection, specs, n, hasks, hanswer, hruns, hframed⟩ := execute_update hrun
  obtain ⟨-, rfl, rfl⟩ := (asks_pair .update "t" renumberings).unique hasks
  obtain rfl := Answer.affected.inj hanswer
  obtain ⟨row', hrow', hextends⟩ := hframed.rows 2 _ rfl
  refine ⟨_, row', rfl, hruns, hrow', hextends.get? "n" ⟨?_, ?_, trivial⟩⟩
  · -- the first specification stops at the document in front
    rintro u hu ⟨-, -, -, hearlier⟩
    obtain rfl := Except.ok.inj ((UpdateSpec.ofDocument_toDocument _ rfl).symm.trans hu)
    have hsecond : Document.isHit [("n", .int32 2)] [("_id", .int32 2), ("n", .int32 2)] = false :=
      hearlier rfl _ (List.mem_cons_of_mem _ (List.mem_singleton.2 rfl))
    exact absurd hsecond (by decide)
  · rintro u hu -
    obtain rfl := Except.ok.inj ((UpdateSpec.ofDocument_toDocument _ rfl).symm.trans hu)
    decide

end Store
end RelDoc
