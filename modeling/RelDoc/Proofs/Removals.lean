import RelDoc.Proofs.Identity
import RelDoc.Proofs.Targets

/-!
# What a delete leaves

A specification of a delete takes out every document that its filter selects, or the first of them (`Takes`). The
next specification finds the documents that are left, so a delete is a run of takings (`Removals`), and it succeeds
exactly if there is such a run (`Store.execute_delete_eq_ok`). Nothing is lost on the way: one taking keeps the other
documents in order and counts what it took (`Takes.conserves`), and so does a run of them (`Removals.conserves`).
-/

namespace RelDoc

open Outcome

/-- The limit that stands for the extent in a specification of a delete. -/
def Extent.limit : Extent → Int
  | every => 0
  | first => 1

/-! ### One specification -/

/-- The filter takes so many documents out of the rows and leaves the others. It has to decide about all of them, or
about those up to the first match if that one alone is meant. -/
inductive Takes (query : Document) : Extent → List Document → Nat → List Document → Prop
  | every {rows : List Document} (decides : Document.Decides query rows) :
    Takes query .every rows (rows.countP (Document.isHit query)) (rows.filter fun row => !Document.isHit query row)
  | first {before behind : List Document} {row : Document}
    (misses : ∀ other ∈ before, other.satisfies query = .ok false) (hits : row.satisfies query = .ok true) :
    Takes query .first (before ++ row :: behind) 1 (before ++ behind)
  | none {rows : List Document} (misses : ∀ row ∈ rows, row.satisfies query = .ok false) :
    Takes query .first rows 0 rows

namespace Takes

variable {query : Document} {extent : Extent} {rows left : List Document} {row : Document} {n : Nat}

/-- What is taken and what is left are the documents there were. -/
theorem conserves (h : Takes query extent rows n left) : left.Sublist rows ∧ n + left.length = rows.length := by
  cases h with
  | every _ =>
    refine ⟨List.filter_sublist, ?_⟩
    rw [List.countP_eq_length_filter]
    exact (List.length_eq_length_filter_add (Document.isHit query)).symm
  | @first before behind row _ _ =>
    refine ⟨(List.Sublist.refl before).append (List.sublist_cons_self row behind), ?_⟩
    simp only [List.length_append, List.length_cons]
    omega
  | none _ => exact ⟨.refl _, Nat.zero_add _⟩

theorem cons_miss (h : Takes query extent rows n left) (hrow : row.satisfies query = .ok false) :
    Takes query extent (row :: rows) n (row :: left) := by
  have hmiss : Document.isHit query row = false := Document.isHit_eq hrow
  cases h with
  | every decides =>
    have hall := Takes.every (decides.cons hrow)
    rwa [List.countP_cons_of_neg (by simp [hmiss]), List.filter_cons_of_pos (by simp [hmiss])] at hall
  | first misses hits => exact .first (List.forall_mem_cons.2 ⟨hrow, misses⟩) hits
  | none misses => exact .none (List.forall_mem_cons.2 ⟨hrow, misses⟩)

theorem cons_hit (h : Takes query .every rows n left) (hrow : row.satisfies query = .ok true) :
    Takes query .every (row :: rows) (n + 1) left := by
  have hhit : Document.isHit query row = true := Document.isHit_eq hrow
  cases h with
  | every decides =>
    have hall := Takes.every (decides.cons hrow)
    rwa [List.countP_cons_of_pos hhit, List.filter_cons_of_neg (by simp [hhit])] at hall

end Takes

namespace Store

variable {query spec : Document} {extent : Extent} {rows left : List Document} {n : Nat}

theorem count_unmarked (rows : List Document) : (rows.map fun _ => false).count true = 0 := by
  rw [count_map, List.countP_false, Function.const_apply]

theorem dropMarked_unmarked (rows : List Document) : dropMarked (rows.map fun _ => false) rows = rows := by
  rw [dropMarked_map]
  simp

theorem takes_of_marks {hits : List Bool} (h : marks query extent rows = .ok hits) :
    Takes query extent rows (hits.count true) (dropMarked hits rows) := by
  induction rows generalizing hits with
  | nil =>
    obtain rfl := Except.ok.inj h
    cases extent with
    | every => exact .every fun _ h => absurd h List.not_mem_nil
    | first => exact .none fun _ h => absurd h List.not_mem_nil
  | cons row rest ih =>
    obtain ⟨hit, hrow, hstep⟩ := bind_eq_ok.1 h
    split at hstep
    · next hstop =>
      -- the walk ends at the first match, and the filter may fail behind it
      rw [Bool.and_eq_true, decide_eq_true_iff] at hstop
      obtain ⟨rfl, rfl⟩ := hstop
      obtain rfl := Except.ok.inj hstep
      rw [List.count_cons_self, count_unmarked, dropMarked, if_pos rfl, dropMarked_unmarked]
      have hfirst : Takes query .first ([] ++ row :: rest) 1 ([] ++ rest) :=
        .first (fun _ h => absurd h List.not_mem_nil) hrow
      exact hfirst
    · next hgo =>
      obtain ⟨more, hmore, hstep⟩ := bind_eq_ok.1 hstep
      obtain rfl := Except.ok.inj hstep
      have hrest := ih hmore
      cases hit with
      | false =>
        rw [List.count_cons_of_ne (by decide), dropMarked, if_neg (by decide)]
        exact hrest.cons_miss hrow
      | true =>
        obtain rfl : extent = .every := by
          cases extent with
          | every => rfl
          | first => simp at hgo
        rw [List.count_cons_self, dropMarked, if_pos rfl]
        exact hrest.cons_hit hrow

theorem marks_of_takes (h : Takes query extent rows n left) :
    ∃ hits, marks query extent rows = .ok hits ∧ hits.count true = n ∧ dropMarked hits rows = left := by
  cases h with
  | every decides => exact ⟨_, marks_every decides, count_map .., dropMarked_map ..⟩
  | @first before behind row misses hits =>
    refine ⟨_, (marks_of_split misses hits behind).1, ?_, ?_⟩
    · rw [List.count_append, List.count_cons_self, count_unmarked, count_unmarked]
    · induction before with
      | nil => rw [List.map_nil, List.nil_append, List.nil_append, dropMarked, if_pos rfl, dropMarked_unmarked,
          List.nil_append]
      | cons other before ih =>
        have hbefore := ih (List.forall_mem_cons.1 misses).2
        rw [List.map_cons, List.cons_append, List.cons_append, dropMarked, if_neg (by decide), hbefore,
          List.cons_append]
  | none misses =>
    have hmarks : marks query .first rows = .ok (rows.map fun _ => false) := by
      induction rows with
      | nil => rfl
      | cons row rest ih =>
        obtain ⟨hrow, hrest⟩ := List.forall_mem_cons.1 misses
        rw [marks, hrow, ok_bind, ih hrest]
        rfl
    exact ⟨_, hmarks, count_unmarked rows, dropMarked_unmarked rows⟩

theorem subDocument_eq_ok {d inner : Document} {key : String} :
    subDocument d key = .ok inner ↔ Dict.get? d key = some (.document inner) := by
  constructor
  · intro h
    unfold subDocument at h
    split at h
    · next found hfound =>
      obtain rfl := Except.ok.inj h
      obtain ⟨v, hv, hdoc⟩ := Option.bind_eq_some_iff.1 hfound
      cases v with
      | document fields =>
        obtain rfl := Option.some.inj hdoc
        exact hv
      | _ => simp [Value.document?] at hdoc
    · simp at h
  · intro h
    rw [subDocument, h]
    rfl

theorem DeleteSpec.extentOf_eq_ok {v : Option Value} :
    extentOf v = .ok extent ↔ v.bind Value.integer? = some extent.limit := by
  cases v with
  | none => simp [extentOf]
  | some v =>
    rw [Option.bind_some]
    cases v with
    | int32 k =>
      have hzero : k = 0 ↔ k.toInt = 0 := Int32.toInt_inj.symm
      have hone : k = 1 ↔ k.toInt = 1 := Int32.toInt_inj.symm
      rw [extentOf, Value.integer?, Option.some_inj]
      cases extent <;> rw [Extent.limit] <;> grind
    | int64 k =>
      have hzero : k = 0 ↔ k.toInt = 0 := Int64.toInt_inj.symm
      have hone : k = 1 ↔ k.toInt = 1 := Int64.toInt_inj.symm
      rw [extentOf, Value.integer?, Option.some_inj]
      cases extent <;> rw [Extent.limit] <;> grind
    | _ => simp [extentOf, Value.integer?]

theorem DeleteSpec.ofDocument_eq_ok : ofDocument spec = .ok ⟨query, extent⟩ ↔
    Dict.get? spec "q" = some (.document query) ∧
      (Dict.get? spec "limit").bind Value.integer? = some extent.limit := by
  rw [← subDocument_eq_ok, ← extentOf_eq_ok]
  constructor
  · intro h
    obtain ⟨found, hq, h⟩ := bind_eq_ok.1 h
    obtain ⟨some, hlimit, h⟩ := bind_eq_ok.1 h
    obtain ⟨rfl, rfl⟩ := DeleteSpec.mk.inj (Except.ok.inj h)
    exact ⟨hq, hlimit⟩
  · rintro ⟨hq, hlimit⟩
    rw [ofDocument, hq, ok_bind, hlimit]
    rfl

/-- The specification has a filter and a limit, and takes so many documents out of the rows. -/
def Removes (spec : Document) (rows : List Document) (n : Nat) (left : List Document) : Prop :=
  ∃ query extent, Dict.get? spec "q" = some (.document query) ∧
    (Dict.get? spec "limit").bind Value.integer? = some extent.limit ∧ Takes query extent rows n left

theorem deleteOnce_eq_ok : deleteOnce spec rows = .ok (n, left) ↔ Removes spec rows n left := by
  constructor
  · intro h
    obtain ⟨⟨query, extent⟩, hspec, h⟩ := bind_eq_ok.1 h
    obtain ⟨hits, hmarks, h⟩ := bind_eq_ok.1 h
    obtain ⟨rfl, rfl⟩ := Prod.mk.inj (Except.ok.inj h)
    obtain ⟨hq, hlimit⟩ := DeleteSpec.ofDocument_eq_ok.1 hspec
    exact ⟨query, extent, hq, hlimit, takes_of_marks hmarks⟩
  · rintro ⟨query, extent, hq, hlimit, htakes⟩
    obtain ⟨hits, hmarks, rfl, rfl⟩ := marks_of_takes htakes
    rw [deleteOnce_of_spec (DeleteSpec.ofDocument_eq_ok.2 ⟨hq, hlimit⟩), hmarks]
    rfl

/-! ### A run of specifications -/

/-- Each specification takes its documents out of those that the ones before it have left. -/
inductive Removals : List Document → List Document → Nat → List Document → Prop
  | nil (rows : List Document) : Removals [] rows 0 rows
  | cons {spec : Document} {specs rows mid left : List Document} {n m : Nat} (head : Removes spec rows n mid)
    (tail : Removals specs mid m left) : Removals (spec :: specs) rows (n + m) left

theorem Removals.conserves {specs : List Document} (h : Removals specs rows n left) :
    left.Sublist rows ∧ n + left.length = rows.length := by
  induction h with
  | nil rows => exact ⟨.refl rows, Nat.zero_add _⟩
  | cons head _ ih =>
    obtain ⟨query, extent, -, -, htakes⟩ := head
    obtain ⟨hsub, hcount⟩ := htakes.conserves
    obtain ⟨hsubs, hcounts⟩ := ih
    refine ⟨hsubs.trans hsub, ?_⟩
    omega

/-- Specifications of a delete succeed exactly if each finds what it takes where those before it have been. -/
theorem applySpecs_eq_ok {specs : List Document} {total m : Nat} :
    applySpecs deleteOnce total rows specs = (.ok m, left) ↔ ∃ n, m = total + n ∧ Removals specs rows n left := by
  induction specs generalizing total rows with
  | nil =>
    constructor
    · intro h
      obtain ⟨hm, rfl⟩ := Prod.mk.inj h
      exact ⟨0, (Except.ok.inj hm).symm, .nil rows⟩
    · rintro ⟨n, rfl, hrun⟩
      cases hrun
      rfl
  | cons spec specs ih =>
    rw [applySpecs]
    constructor
    · intro h
      split at h
      · simp at h
      · next k mid hstep =>
        obtain ⟨n, rfl, htail⟩ := ih.1 h
        exact ⟨k + n, Nat.add_assoc .., .cons (deleteOnce_eq_ok.1 hstep) htail⟩
    · rintro ⟨n, rfl, hrun⟩
      cases hrun with
      | @cons _ _ _ mid _ k n head tail =>
        rw [deleteOnce_eq_ok.2 head]
        exact ih.2 ⟨n, (Nat.add_assoc ..).symm, tail⟩

variable {fresh : Nat → ObjectId} {store after : Store} {collection : String} {command : Document}
  {specs : List Document}

/-- A delete on a collection that there is succeeds with what its specifications leave. -/
theorem execute_delete_eq_ok (ha : Asks command .delete collection specs)
    (hg : Dict.get? store.collections collection = some rows) :
    store.execute fresh command = (.ok (.affected n), store.withDocuments collection left) ↔
      Removals specs rows n left := by
  rw [execute_of_asks ha, Verb.run_of_step rfl]
  constructor
  · intro h
    obtain ⟨m, found, hrun, hanswer, hstore⟩ := change_eq_ok hg h
    obtain rfl := Answer.affected.inj hanswer
    have hfound : left = found := by
      have hdocuments := congrArg (fun s => s.documents collection) hstore
      simpa [documents_withDocuments] using hdocuments
    obtain ⟨k, hk, hremovals⟩ := applySpecs_eq_ok.1 hrun
    rw [Nat.zero_add] at hk
    rwa [hk, hfound]
  · intro hremovals
    have hrun := applySpecs_eq_ok.2 ⟨n, (Nat.zero_add n).symm, hremovals⟩
    simp only [change, hg, hrun]
    rfl

/-- A delete that succeeds takes out what its specifications say, one after another, and answers with the number of
documents taken. Those that are left are the same and in the same order, and every other collection is as it was.
Where there is no collection there is nothing to take, and the specifications are not looked at. -/
theorem delete_conserves {v : Value} {rest : Document} {answer : Answer}
    (h : store.execute fresh (("delete", v) :: rest) = (.ok answer, after)) :
    ∃ collection specs n, Asks (("delete", v) :: rest) .delete collection specs ∧ answer = .affected n ∧
      (∀ rows, Dict.get? store.collections collection = some rows →
        Removals specs rows n (after.documents collection)) ∧
      (after.documents collection).Sublist (store.documents collection) ∧
      n + (after.documents collection).length = (store.documents collection).length ∧
      Changed store after collection fun _ => after.documents collection := by
  rcases asks_or_refused (("delete", v) :: rest) with ⟨verb, collection, specs, ha⟩ | ⟨e, -, hrefused⟩
  · obtain rfl : verb = .delete := Verb.name_inj ha.name_eq
    have hrun := h
    rw [execute_of_asks ha, Verb.run_of_step rfl] at hrun
    cases hg : Dict.get? store.collections collection with
    | none =>
      rw [change, hg] at hrun
      obtain ⟨hanswer, rfl⟩ := Prod.mk.inj hrun
      refine ⟨collection, specs, 0, ha, (Except.ok.inj hanswer).symm, fun rows hrows => ?_, .refl _, Nat.zero_add _,
        changed_missing hg _⟩
      simp [hg] at hrows
    | some rows =>
      obtain ⟨n, left, -, rfl, rfl⟩ := change_eq_ok hg hrun
      have hremovals : Removals specs rows n left := (execute_delete_eq_ok ha hg).1 h
      obtain ⟨hsub, hcount⟩ := hremovals.conserves
      have hbefore : store.documents collection = rows := by rw [documents, hg]; rfl
      have hafter : (store.withDocuments collection left).documents collection = left := by
        rw [documents_withDocuments, if_pos rfl]
      refine ⟨collection, specs, n, ha, rfl, ?_⟩
      rw [hbefore, hafter]
      refine ⟨fun rows' hrows => ?_, hsub, hcount, changed_withDocuments hg fun _ => left⟩
      obtain rfl := Option.some.inj (hg.symm.trans hrows)
      exact hremovals
  · rw [hrefused] at h
    simp at h

/-- The first of the documents with the number two, and then all with the number two that are left. -/
def twosInTurn : List Document :=
  [DeleteSpec.toDocument ⟨[("n", .int32 2)], .first⟩, DeleteSpec.toDocument ⟨[("n", .int32 2)], .every⟩]

/-- Each of them takes one document, the second from the place that the first has made free. -/
theorem delete_conserves_pairs : ∃ after,
    pairs.execute zeros (Verb.delete.command "t" twosInTurn) = (.ok (.affected 2), after) ∧
    after.documents "t" = [[("_id", .int32 1), ("n", .int32 1)]] ∧
    Removals twosInTurn (pairs.documents "t") 2 (after.documents "t") ∧
    2 + (after.documents "t").length = (pairs.documents "t").length := by
  have hrun : pairs.execute zeros (Verb.delete.command "t" twosInTurn) = (.ok (.affected 2), _) :=
    Prod.ext (y := (_, _)) rfl rfl
  obtain ⟨collection, specs, n, hasks, hanswer, hremovals, -, hcount, -⟩ := delete_conserves hrun
  obtain ⟨-, rfl, rfl⟩ := (asks_pair .delete "t" twosInTurn).unique hasks
  obtain rfl := Answer.affected.inj hanswer
  exact ⟨_, hrun, rfl, hremovals _ rfl, hcount⟩

end Store
end RelDoc
