import Mathlib.Data.List.Sort
import RelDoc.Proofs.Comparing
import RelDoc.Proofs.Outcome
import RelDoc.Proofs.Sorting

/-!
# Sorted rows

Rows are sorted by insertion from the back (`Pipeline.insertRows_eq`), so their order under the paths of a sort
document has to be total for the result to be sorted. On rows without a not-a-number under these paths it is that of
the places of their values, path by path (`Pipeline.compareRows_eq_placeRows`). There `$sort` never gives up, and gives
the same rows in order; rows that nothing tells apart stay in the order that they had (`Pipeline.runStage_sort`).
-/

namespace RelDoc

/-! ### The order of rows -/

namespace Value

variable {a b : Value}

/-- A value comes first if its rank is smaller, or if the ranks agree and it is less. -/
inductive Before (a b : Value) : Prop
  | rank (hlt : a.rank < b.rank)
  | value (hr : a.rank = b.rank) (hlt : a.compare? b = some .lt)

theorem sortOrder_eq_lt_iff : a.sortOrder b = .lt ↔ a.Before b := by
  by_cases hr : a.rank = b.rank
  case pos =>
    rw [sortOrder_of_rank_eq hr]
    constructor
    · intro hlt
      -- a pair without an order would have been equal
      cases hc : a.compare? b with
      | none => simp [hc] at hlt
      | some o => exact .value hr (hc.trans (congrArg some (by simpa [hc] using hlt)))
    · rintro (hlt | ⟨-, hlt⟩)
      · omega
      · rw [hlt]
        rfl
  case neg =>
    constructor
    · intro hlt
      have hle : a.rank ≤ b.rank := rank_le_of_sortOrder (by simp [hlt])
      exact .rank (Nat.lt_of_le_of_ne hle hr)
    · rintro (hlt | ⟨heq, -⟩)
      · rw [sortOrder, Nat.compare_eq_lt.2 hlt]
        rfl
      · exact absurd heq hr

end Value

namespace Pipeline

/-- One row comes first under a path: its value does, or the other row's if the path descends. -/
def SortPath.Before (p : SortPath) (a b : Document) : Prop :=
  if p.descending then (sortValue p.path b).Before (sortValue p.path a)
  else (sortValue p.path a).Before (sortValue p.path b)

/-- One row comes first under a list of paths, of which the first that tells the two apart decides. -/
inductive Before : List SortPath → Document → Document → Prop
  | here {p : SortPath} {rest : List SortPath} {a b : Document} (h : p.Before a b) : Before (p :: rest) a b
  | later {p : SortPath} {rest : List SortPath} {a b : Document} (hab : ¬ p.Before a b) (hba : ¬ p.Before b a)
      (h : Before rest a b) : Before (p :: rest) a b

variable {ps : List SortPath} {rows : List Document} {a b : Document}

/-- The order of two rows under one path. -/
def SortPath.order (p : SortPath) (a b : Document) : Ordering :=
  let o := (sortValue p.path a).sortOrder (sortValue p.path b)
  if p.descending then o.swap else o

theorem compareRows_cons (p : SortPath) (rest : List SortPath) (a b : Document) :
    compareRows (p :: rest) a b = (p.order a b).then (compareRows rest a b) := rfl

theorem SortPath.order_swap (p : SortPath) (a b : Document) : p.order b a = (p.order a b).swap := by
  simp only [order, Value.sortOrder_swap (sortValue p.path a)]
  split <;> rfl

theorem SortPath.order_eq_lt_iff {p : SortPath} : p.order a b = .lt ↔ p.Before a b := by
  unfold order Before
  split
  · rw [← Value.sortOrder_swap, Value.sortOrder_eq_lt_iff]
  · exact Value.sortOrder_eq_lt_iff

theorem SortPath.order_eq_gt_iff {p : SortPath} : p.order a b = .gt ↔ p.Before b a := by
  rw [← order_eq_lt_iff, p.order_swap a b, Ordering.swap_eq_lt]

theorem compareRows_eq_lt_iff : compareRows ps a b = .lt ↔ Before ps a b := by
  induction ps with
  | nil => exact iff_of_false nofun nofun
  | cons p rest ih =>
    rw [compareRows_cons, Ordering.then_eq_lt, SortPath.order_eq_lt_iff, ih]
    constructor
    · rintro (h | ⟨heq, h⟩)
      · exact .here h
      · refine .later (fun hab => ?_) (fun hba => ?_) h
        · cases heq.symm.trans (SortPath.order_eq_lt_iff.2 hab)
        · cases heq.symm.trans (SortPath.order_eq_gt_iff.2 hba)
    · rintro (h | ⟨hab, hba, h⟩)
      · exact .inl h
      · refine .inr ⟨?_, h⟩
        rw [← SortPath.order_eq_lt_iff] at hab
        rw [← SortPath.order_eq_gt_iff] at hba
        cases ho : p.order a b with
        | eq => rfl
        | lt => exact absurd ho hab
        | gt => exact absurd ho hba

/-! ### The order of places -/

/-- Where a row stands under a path. -/
def SortPath.place (p : SortPath) (row : Document) : Value.Place := (sortValue p.path row).place

/-- The order of two rows by where they stand under a path. -/
def SortPath.placeOrder (p : SortPath) : Document → Document → Ordering :=
  if p.descending then fun a b => compareOn p.place b a else compareOn p.place

instance (p : SortPath) : Std.TransCmp p.placeOrder := by
  unfold SortPath.placeOrder
  split
  · exact Std.TransCmp.opposite
  · infer_instance

def placeRows : List SortPath → Document → Document → Ordering
  | [] => fun _ _ => .eq
  | p :: rest => compareLex p.placeOrder (placeRows rest)

instance instTransCmpPlaceRows (ps : List SortPath) : Std.TransCmp (placeRows ps) := by
  induction ps with
  | nil => exact { eq_swap := rfl, isLE_trans := fun _ _ => rfl }
  | cons p rest ih => exact inferInstanceAs (Std.TransCmp (compareLex p.placeOrder (placeRows rest)))

/-- None of the values of a row under the paths is a not-a-number. -/
def Ordered (ps : List SortPath) (row : Document) : Prop := ∀ p ∈ ps, (sortValue p.path row).isNaN = false

theorem compareRows_eq_placeRows (ha : Ordered ps a) (hb : Ordered ps b) :
    compareRows ps a b = placeRows ps a b := by
  induction ps with
  | nil => rfl
  | cons p rest ih =>
    have hp : p.order a b = p.placeOrder a b := by
      have hv := Value.sortOrder_eq_place (ha p (List.mem_cons_self ..)) (hb p (List.mem_cons_self ..))
      unfold SortPath.order SortPath.placeOrder
      simp only [hv]
      split
      · exact Std.OrientedOrd.eq_swap.symm
      · rfl
    have hrest := ih (fun q hq => ha q (List.mem_cons_of_mem _ hq)) (fun q hq => hb q (List.mem_cons_of_mem _ hq))
    rw [compareRows_cons, hp, hrest]
    rfl

theorem compareRows_swap (ps : List SortPath) (a b : Document) : compareRows ps b a = (compareRows ps a b).swap := by
  induction ps with
  | nil => rfl
  | cons p rest ih => rw [compareRows_cons, compareRows_cons, p.order_swap, ih, Ordering.swap_then]

/-- Rows without a not-a-number are ordered by where they stand. -/
theorem orders_of_ordered (h : ∀ row ∈ rows, Ordered ps row) : Orders ps rows := fun a ha b hb c hc hab hbc => by
  rw [compareRows_eq_placeRows (h a ha) (h b hb)] at hab
  rw [compareRows_eq_placeRows (h b hb) (h c hc)] at hbc
  rw [compareRows_eq_placeRows (h a ha) (h c hc)]
  exact Std.TransCmp.isLE_trans hab hbc

/-! ### Insertion from the back -/

/-- The first row does not come before the second. -/
abbrev NotBefore (ps : List SortPath) (a b : Document) : Prop := compareRows ps a b ≠ .lt

theorem notBefore_iff : NotBefore ps a b ↔ (compareRows ps b a).isLE = true := by
  rw [NotBefore, compareRows_swap ps a b]
  cases compareRows ps a b <;> simp

theorem notBefore_total (ps : List SortPath) (a b : Document) : NotBefore ps a b ∨ NotBefore ps b a := by
  rw [notBefore_iff, notBefore_iff, compareRows_swap ps a b]
  cases compareRows ps a b <;> simp

theorem insertRow_eq (ps : List SortPath) (d : Document) (sorted : List Document) :
    insertRow ps d sorted = sorted.orderedInsert (NotBefore ps) d := by
  induction sorted with
  | nil => rfl
  | cons last rest ih => simp only [insertRow, List.orderedInsert_cons, NotBefore, ite_not, ih]

/-- The list that rows are put into has its last element first, so this is an insertion sort of the reversed rows. -/
theorem insertRows_eq (ps : List SortPath) (rows : List Document) :
    insertRows ps rows = (rows.reverse.insertionSort (NotBefore ps)).reverse := by
  simp only [insertRows, insertRow_eq, List.insertionSort, List.foldr_reverse]

theorem insertRows_perm (ps : List SortPath) (rows : List Document) : (insertRows ps rows).Perm rows := by
  rw [insertRows_eq]
  exact (List.reverse_perm _).trans ((List.perm_insertionSort _ _).trans (List.reverse_perm rows))

/-- On rows that the comparison orders, not coming before is total and transitive, so that they can be sorted by it. -/
theorem pairwise_insertionSort (h : Orders ps rows) :
    (rows.insertionSort (NotBefore ps)).Pairwise (NotBefore ps) := by
  let onRows (a b : {row // row ∈ rows}) : Prop := NotBefore ps a.1 b.1
  have : DecidableRel onRows := fun a b => inferInstanceAs (Decidable (NotBefore ps a.1 b.1))
  have : Std.Total onRows := ⟨fun a b => notBefore_total ps a.1 b.1⟩
  have : IsTrans _ onRows := ⟨fun a b c hab hbc => by
    exact notBefore_iff.2 (h c.1 c.2 b.1 b.2 a.1 a.2 (notBefore_iff.1 hbc) (notBefore_iff.1 hab))⟩
  have hmap := List.map_insertionSort onRows (NotBefore ps) Subtype.val rows.attach fun _ _ _ _ => Iff.rfl
  rw [List.attach_map_subtype_val] at hmap
  rw [← hmap, List.pairwise_map]
  exact List.pairwise_insertionSort onRows rows.attach

theorem insertRows_pairwise (h : Orders ps rows) : (insertRows ps rows).Pairwise fun a b => ¬ Before ps b a := by
  have hreverse : Orders ps rows.reverse := fun a ha b hb c hc =>
    h a (List.mem_reverse.1 ha) b (List.mem_reverse.1 hb) c (List.mem_reverse.1 hc)
  rw [insertRows_eq, List.pairwise_reverse]
  refine (pairwise_insertionSort hreverse).imp fun hab => ?_
  rwa [← compareRows_eq_lt_iff]

/-- Rows of which none comes before another stay in the order that they had. -/
theorem filter_insertRows {tied : Document → Bool}
    (h : ∀ a ∈ rows, ∀ b ∈ rows, tied a = true → tied b = true → ¬ Before ps a b) :
    (insertRows ps rows).filter tied = rows.filter tied := by
  have hsub : (rows.filter tied).Sublist (insertRows ps rows) := by
    rw [insertRows_eq, ← List.reverse_sublist, List.reverse_reverse]
    refine List.sublist_insertionSort (List.pairwise_of_forall_mem_list fun a ha b hb => ?_)
      (List.reverse_sublist.2 List.filter_sublist)
    rw [List.mem_reverse, List.mem_filter] at ha hb
    rw [NotBefore, Ne, compareRows_eq_lt_iff]
    exact h a ha.1 b hb.1 ha.2 hb.2
  -- the rows tested are still there in their order, and there are no more of them than before
  have hfilter := hsub.filter tied
  rw [List.filter_filter] at hfilter
  simp only [Bool.and_self] at hfilter
  exact (hfilter.eq_of_length ((insertRows_perm ps rows).filter tied).length_eq.symm).symm

/-! ### The stage -/

/-- The directions of a sort document. -/
inductive Directs : Value → Bool → Prop
  | ascending : Directs (.int32 1) false
  | ascending64 : Directs (.int64 1) false
  | descending : Directs (.int32 (-1)) true
  | descending64 : Directs (.int64 (-1)) true

/-- An entry of a sort document stands for a path. -/
def Reads (entry : String × Value) (p : SortPath) : Prop := entry.1 = p.path ∧ Directs entry.2 p.descending

theorem sortDirection_eq_ok {v : Value} {descending : Bool} :
    sortDirection v = .ok descending ↔ Directs v descending := by
  constructor
  · intro h
    cases v with
    | int32 | int64 =>
      simp only [sortDirection] at h
      split_ifs at h with h1 h2
      · cases h1
        cases h
        constructor
      · cases h2
        cases h
        constructor
    | _ => cases h
  · rintro ⟨⟩ <;> rfl

/-- The documents that `$sort` takes: every entry has a direction. -/
theorem sortPaths_eq_ok {spec : Document} : sortPaths spec = .ok ps ↔ List.Forall₂ Reads spec ps := by
  induction spec generalizing ps with
  | nil => simp [sortPaths, eq_comm]
  | cons entry rest ih =>
    obtain ⟨path, v⟩ := entry
    rw [sortPaths, List.forall₂_cons_left_iff]
    simp only [Outcome.bind_eq_ok, Outcome.pure_eq_ok, Except.ok.injEq, sortDirection_eq_ok, ih]
    constructor
    · rintro ⟨descending, hd, more, hmore, rfl⟩
      exact ⟨⟨path, descending⟩, more, ⟨rfl, hd⟩, hmore, rfl⟩
    · rintro ⟨⟨_, descending⟩, more, ⟨rfl, hd⟩, hmore, rfl⟩
      exact ⟨descending, hd, more, hmore, rfl⟩

/-- What `$sort` does to rows without a not-a-number under its paths: the same rows come out, none behind a row that it
comes before, and rows that nothing tells apart in the order in which they went in. -/
theorem runStage_sort {spec : Document} (hs : List.Forall₂ Reads spec ps)
    (hn : ∀ row ∈ rows, ∀ p ∈ ps, (sortValue p.path row).isNaN = false) :
    ∃ sorted, runStage "$sort" (.document spec) rows = .ok sorted ∧ sorted.Perm rows ∧
      (sorted.Pairwise fun a b => ¬ Before ps b a) ∧
      ∀ tied : Document → Bool,
        (∀ a ∈ rows, ∀ b ∈ rows, tied a = true → tied b = true → ¬ Before ps a b) →
          sorted.filter tied = rows.filter tied := by
  have horders := orders_of_ordered hn
  refine ⟨insertRows ps rows, ?_, insertRows_perm ps rows, insertRows_pairwise horders, fun tied => filter_insertRows⟩
  have hsort : sort rows spec = .ok (insertRows ps rows) := by
    rw [sort, sortPaths_eq_ok.2 hs]
    exact if_pos (.inr horders)
  exact hsort

/-- The greatest ages first: a text, two equal numbers of different types, then what is missing or null, each pair in the
order in which it came in. -/
theorem runStage_sort_mixed :
    let spec : Document := [("age", .int32 (-1)), ("town.name", .int64 1)]
    let ps : List SortPath := [⟨"age", true⟩, ⟨"town.name", false⟩]
    let rows : List Document :=
      [[("_id", .int32 1), ("age", .int32 2)], [("_id", .int32 2)],
        [("_id", .int32 3), ("age", .double ⟨0x4000000000000000⟩)], [("_id", .int32 4), ("age", .null)],
        [("_id", .int32 5), ("age", .string "old")]]
    (∃ sorted, runStage "$sort" (.document spec) rows = .ok sorted ∧ sorted.Perm rows ∧
      (sorted.Pairwise fun a b => ¬ Before ps b a) ∧
      ∀ tied : Document → Bool,
        (∀ a ∈ rows, ∀ b ∈ rows, tied a = true → tied b = true → ¬ Before ps a b) →
          sorted.filter tied = rows.filter tied) ∧
    (runStage "$sort" (.document spec) rows).map (·.map fun row => Dict.get? row "_id") =
      .ok [some (.int32 5), some (.int32 1), some (.int32 3), some (.int32 2), some (.int32 4)] :=
  ⟨runStage_sort (.cons ⟨rfl, .descending⟩ (.cons ⟨rfl, .ascending64⟩ .nil)) (by decide), rfl⟩

end Pipeline
end RelDoc
