import RelDoc.Proofs.Equivalence
import RelDoc.Store.Pipeline

/-!
# Sorting rows

Sorting looks at rows through `compareRows` alone, so it commutes with any change of the rows that keeps
their order (`Pipeline.sortRows_map`), also from one list of paths to another, and so does whether the rows
can be sorted at all (`Pipeline.sortable_map`). A path that occurs before decides nothing more
(`Pipeline.compareRows_repeated`).
-/

namespace RelDoc
namespace Pipeline

variable {ps qs : List SortPath} {a b : Document}

theorem compareRows_append (ps qs : List SortPath) (a b : Document) :
    compareRows (ps ++ qs) a b = (compareRows ps a b).then (compareRows qs a b) := by
  induction ps with
  | nil => rfl
  | cons p rest ih => rw [List.cons_append, compareRows, compareRows, ih, Ordering.then_assoc]

/-- Rows that compare equal have equal values under every path. -/
theorem sortOrder_of_compareRows (h : compareRows ps a b = .eq) {p : SortPath} (hp : p ∈ ps) :
    (sortValue p.path a).sortOrder (sortValue p.path b) = .eq := by
  induction ps with
  | nil => simp at hp
  | cons q rest ih =>
    rw [compareRows, Ordering.then_eq_eq] at h
    rcases List.mem_cons.1 hp with rfl | hp
    · obtain ⟨hq, -⟩ := h
      split at hq
      · rwa [Ordering.swap_eq_eq] at hq
      · exact hq
    · exact ih h.2 hp

/-- A path that occurs before decides nothing more, whatever its direction. -/
theorem compareRows_repeated {p q : SortPath} (hq : q ∈ ps) (hp : q.path = p.path) (a b : Document) :
    compareRows (ps ++ [p]) a b = compareRows ps a b := by
  rw [compareRows_append]
  cases h : compareRows ps a b with
  | lt => rfl
  | gt => rfl
  | eq =>
    have ho := sortOrder_of_compareRows h hq
    rw [hp] at ho
    simp only [compareRows, ho]
    cases p.descending <;> rfl

theorem compareRows_congr {f : Document → Document}
    (h : ∀ p ∈ ps, ∀ row, sortValue p.path (f row) = sortValue p.path row) (a b : Document) :
    compareRows ps (f a) (f b) = compareRows ps a b := by
  induction ps with
  | nil => rfl
  | cons p rest ih =>
    have hp := h p (List.mem_cons_self ..)
    rw [compareRows, compareRows, hp, hp, ih fun q hq => h q (List.mem_cons_of_mem _ hq)]

theorem insertRow_map {f : Document → Document} (h : ∀ a b, compareRows ps (f a) (f b) = compareRows qs a b)
    (row : Document) (sorted : List Document) :
    insertRow ps (f row) (sorted.map f) = (insertRow qs row sorted).map f := by
  induction sorted with
  | nil => rfl
  | cons last rest ih =>
    rw [List.map_cons, insertRow, insertRow, h]
    split
    · rw [List.map_cons, ih]
    · rfl

theorem insertRows_map {f : Document → Document} (h : ∀ a b, compareRows ps (f a) (f b) = compareRows qs a b)
    (rows : List Document) : insertRows ps (rows.map f) = (insertRows qs rows).map f := by
  have fold (sorted : List Document) : (rows.map f).foldl (fun sorted d => insertRow ps d sorted) (sorted.map f) =
      (rows.foldl (fun sorted d => insertRow qs d sorted) sorted).map f := by
    induction rows generalizing sorted with
    | nil => rfl
    | cons row rest ih => rw [List.map_cons, List.foldl_cons, List.foldl_cons, insertRow_map h, ih]
  rw [insertRows, insertRows, List.map_reverse]
  exact congrArg List.reverse (fold [])

theorem sortable_map {f : Document → Document} (h : ∀ a b, compareRows ps (f a) (f b) = compareRows qs a b)
    (rows : List Document) : Sortable ps (rows.map f) ↔ Sortable qs rows := by
  simp only [Sortable, Orders, List.length_map, List.forall_mem_map, h]

/-- Sorting commutes with a change of the rows that keeps their order. -/
theorem sortRows_map {f : Document → Document} (h : ∀ a b, compareRows ps (f a) (f b) = compareRows qs a b)
    (rows : List Document) : sortRows ps (rows.map f) = (sortRows qs rows).map (List.map f) := by
  rw [sortRows, sortRows, insertRows_map h]
  simp only [sortable_map h]
  split <;> rfl

theorem orders_nil (rows : List Document) : Orders [] rows := fun _ _ _ _ _ _ _ _ => rfl

/-- Without a path rows stay where they are. -/
theorem insertRows_nil (rows : List Document) : insertRows [] rows = rows := by
  have fold (sorted : List Document) : rows.foldl (fun sorted d => insertRow [] d sorted) sorted =
      rows.reverse ++ sorted := by
    induction rows generalizing sorted with
    | nil => rfl
    | cons row rest ih =>
      have hr : insertRow [] row sorted = row :: sorted := by cases sorted <;> rfl
      rw [List.foldl_cons, hr, ih, List.reverse_cons, List.append_assoc]
      rfl
  rw [insertRows, fold, List.append_nil, List.reverse_reverse]

theorem sortRows_nil (rows : List Document) : sortRows [] rows = .ok rows := by
  rw [sortRows, if_pos (.inr (orders_nil rows)), insertRows_nil]

end Pipeline
end RelDoc
