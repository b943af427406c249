import RelDoc.Proofs.Filling
import RelDoc.Proofs.Planned
import RelDoc.Proofs.Truth
import RelDoc.Store.Pipeline

/-!
# Projections pick the selected fields

`pick names row` has the fields of a row that a select list names: the primary key first, the others as
they are stored, and all of them where nothing is selected. The projection that a select list is planned
to leaves the primary key out unless it is asked for, so it always names what is kept
(`Direct.mem_projectionSpec`), and running it picks the selected fields of every row (`Direct.project_completed`).
-/

namespace RelDoc

open Outcome

namespace Dict

variable {α : Type} {d : Dict α} {name : String}

theorem get?_filter (f : String → Bool) (d : Dict α) (name : String) :
    get? (d.filter fun p => f p.1) name = if f name then get? d name else none := by
  induction d with
  | nil => simp
  | cons p rest ih =>
    obtain ⟨k, a⟩ := p
    rw [get?_cons, List.filter_cons]
    by_cases hk : k = name
    · subst hk
      by_cases hf : f k = true
      · simp [hf, get?_cons]
      · simp [hf, ih]
    · by_cases hf : f k = true
      · simp [hf, get?_cons, hk, ih]
      · simp [hf, hk, ih]

theorem get?_append (d e : Dict α) (name : String) : get? (d ++ e) name = (get? d name).or (get? e name) := by
  induction d with
  | nil => simp
  | cons p rest ih =>
    obtain ⟨k, a⟩ := p
    rw [List.cons_append, get?_cons, get?_cons, ih]
    split <;> rfl

/-- The entries under a name: the one that is found, if any. -/
theorem filter_name (hn : (keys d).Nodup) (name : String) :
    d.filter (fun p => p.1 = name) = (get? d name).toList.map (name, ·) := by
  induction d with
  | nil => rfl
  | cons p rest ih =>
    obtain ⟨k, a⟩ := p
    obtain ⟨hk, hr⟩ := List.nodup_cons.1 hn
    rw [List.filter_cons, get?_cons]
    by_cases he : k = name
    · subst he
      have hnone : get? rest k = none := get?_eq_none hk
      have hrest := ih hr
      rw [hnone] at hrest
      simp [hrest]
    · simpa [he] using ih hr

end Dict

/-- The fields of a row that are named: the primary key first, the others as they are stored. Where no
field is named the row is kept whole. -/
def pick (names : List String) (row : Document) : Document :=
  if names = [] then row
  else
    row.filter (fun p => p.1 = idField && names.contains p.1) ++
      row.filter (fun p => p.1 ≠ idField && names.contains p.1)

theorem get?_pick {names : List String} {name : String} (h : name ∈ names) (row : Document) :
    Dict.get? (pick names row) name = Dict.get? row name := by
  rw [pick, if_neg (List.ne_nil_of_mem h), Dict.get?_append,
    Dict.get?_filter (fun k => k = idField && names.contains k),
    Dict.get?_filter (fun k => k ≠ idField && names.contains k)]
  by_cases hi : name = idField
  · subst hi
    simp [h]
  · simp [hi, h]

namespace Pipeline.Projecting

variable {p : Projecting} {names : List String} {row : Document}

/-- What a projection has to ask for to pick the named fields. -/
structure Picks (p : Projecting) (names : List String) : Prop where
  keepsId : p.keepsId = decide (idField ∈ names)
  includes : p.includes = true
  mem_included : ∀ name, name ∈ p.included ↔ name ≠ idField ∧ name ∈ names

/-- The primary key alone, of a row that holds each field once. -/
theorem filter_idField (hrow : (Dict.keys row).Nodup) (names : List String) :
    row.filter (fun q => q.1 = idField && names.contains q.1) =
      if idField ∈ names then (Dict.get? row idField).toList.map (idField, ·) else [] := by
  split
  case isTrue hm =>
    have he : row.filter (fun q => q.1 = idField && names.contains q.1) =
        row.filter (fun q => q.1 = idField) := by
      refine List.filter_congr fun q _ => ?_
      by_cases hq : q.1 = idField <;> simp [hq, hm]
    rw [he, Dict.filter_name hrow]
  case isFalse hm =>
    refine List.filter_eq_nil_iff.2 fun q _ => ?_
    by_cases hq : q.1 = idField <;> simp [hq, hm]

theorem Picks.apply (h : p.Picks names) (hn : names ≠ []) (hrow : (Dict.keys row).Nodup) :
    p.apply row = pick names row := by
  have hkept : row.filter (fun q => if p.includes then p.included.contains q.1
      else q.1 ≠ idField && !p.excluded.contains q.1) =
        row.filter (fun q => q.1 ≠ idField && names.contains q.1) := by
    refine List.filter_congr fun q _ => ?_
    rw [if_pos h.includes, Bool.eq_iff_iff]
    simp [h.mem_included]
  rw [Projecting.apply, pick, if_neg hn, filter_idField hrow]
  refine congrArg₂ (· ++ ·) ?_ hkept
  by_cases hm : idField ∈ names
  · rw [h.keepsId, decide_eq_true hm, if_pos hm]
    cases Dict.get? row idField <;> rfl
  · rw [h.keepsId, decide_eq_false hm, if_neg hm]

theorem mem_truthy {spec : Document} (hincl : ∀ q ∈ spec, q.1 ≠ idField → q.2.isTruthy = true) (name : String) :
    name ∈ ((spec.filter (·.1 ≠ idField)).filter (·.2.isTruthy)).map Prod.fst ↔
      name ≠ idField ∧ name ∈ Dict.keys spec := by
  constructor
  · intro h
    obtain ⟨q, hq, rfl⟩ := List.mem_map.1 h
    obtain ⟨hq, -⟩ := List.mem_filter.1 hq
    obtain ⟨hq, hne⟩ := List.mem_filter.1 hq
    exact ⟨by simpa using hne, List.mem_map.2 ⟨q, hq, rfl⟩⟩
  · rintro ⟨hne, hm⟩
    obtain ⟨q, hq, rfl⟩ := List.mem_map.1 hm
    exact List.mem_map.2 ⟨q, List.mem_filter.2 ⟨List.mem_filter.2 ⟨hq, by simpa using hne⟩, hincl q hq hne⟩, rfl⟩

theorem falsy_eq_nil {spec : Document} (hincl : ∀ q ∈ spec, q.1 ≠ idField → q.2.isTruthy = true) :
    ((spec.filter (·.1 ≠ idField)).filter (!·.2.isTruthy)).map Prod.fst = [] := by
  refine List.map_eq_nil_iff.2 (List.filter_eq_nil_iff.2 fun q hq => ?_)
  obtain ⟨hq, hne⟩ := List.mem_filter.1 hq
  simp [hincl q hq (by simpa using hne)]

/-- A projection that keeps every field but the primary key and keeps that one exactly if it is among
`names`. -/
theorem ofDocument_picks {spec : Document}
    (hget : Dict.get? spec idField = some (.boolean (decide (idField ∈ names))))
    (hincl : ∀ q ∈ spec, q.1 ≠ idField → q.2 = .boolean true)
    (hnames : ∀ name, name ≠ idField → (name ∈ Dict.keys spec ↔ name ∈ names)) (hn : names ≠ []) :
    ∃ p, ofDocument spec = .ok p ∧ p.Picks names := by
  have htruthy : ∀ q ∈ spec, q.1 ≠ idField → q.2.isTruthy = true := fun q hq hne => by rw [hincl q hq hne]; rfl
  have hmem : ∀ name, name ∈ ((spec.filter (·.1 ≠ idField)).filter (·.2.isTruthy)).map Prod.fst ↔
      name ≠ idField ∧ name ∈ names := fun name => (mem_truthy htruthy name).trans (and_congr_right (hnames name))
  unfold ofDocument
  simp only [falsy_eq_nil htruthy, hget, List.isEmpty_nil, Bool.not_true, Bool.and_false, Bool.false_eq_true,
    if_false, Bool.true_and]
  refine ⟨_, rfl, rfl, ?_, hmem⟩
  -- a select list without another field has the primary key in it
  rw [Bool.or_eq_true, Bool.not_eq_true', List.isEmpty_eq_false_iff]
  by_cases he : ((spec.filter (·.1 ≠ idField)).filter (·.2.isTruthy)).map Prod.fst = []
  · obtain ⟨name, hm⟩ := List.exists_mem_of_ne_nil _ hn
    have hname : name = idField := by
      by_contra hne
      have hin := (hmem name).2 ⟨hne, hm⟩
      rw [he] at hin
      exact List.not_mem_nil hin
    right
    simp [hname ▸ hm, Dict.contains, hget, Value.isTruthy]
  · exact .inl he

end Pipeline.Projecting

namespace Direct

variable {d : Dialect} {t : Table}

/-- The fields that a select list names. -/
def selectedFields (d : Dialect) (t : Table) (selections : List Selection) : List String :=
  selections.filterMap fun s => d.field? t s.expression

theorem mem_addProjection {found : List Projection} {p : Projection} {name : String} :
    (∃ q ∈ addProjection found p, q.field.text = name) ↔
      (∃ q ∈ found, q.field.text = name) ∨ p.field.text = name := by
  unfold addProjection
  split
  · next h =>
    obtain ⟨q, hq, he⟩ := List.any_eq_true.1 h
    have he : q.field = p.field := by simpa using he
    refine ⟨.inl, ?_⟩
    rintro (hf | hp)
    · exact hf
    · exact ⟨q, hq, by rw [he, hp]⟩
  · simp [List.mem_append, or_and_right, exists_or]

theorem projections_eq_ok {found selected : List Projection} {selections : List Selection}
    (h : projections d (some t) found selections = .ok selected) (hf : ∀ p ∈ found, p.included = true) :
    (∀ p ∈ selected, p.included = true) ∧
      ∀ name, (∃ p ∈ selected, p.field.text = name) ↔
        (∃ p ∈ found, p.field.text = name) ∨ name ∈ selectedFields d t selections := by
  induction selections generalizing found with
  | nil =>
    obtain rfl := Except.ok.inj h
    exact ⟨hf, fun name => by simp [selectedFields]⟩
  | cons s rest ih =>
    obtain ⟨p, hp, h⟩ := bind_eq_ok.1 h
    obtain ⟨hi, hp⟩ := projection_eq_ok hp
    have hadd : ∀ q ∈ addProjection found p, q.included = true := by
      intro q hq
      unfold addProjection at hq
      split at hq
      · exact hf q hq
      · rcases List.mem_append.1 hq with hq | hq
        · exact hf q hq
        · rw [List.mem_singleton.1 hq, hi]
    obtain ⟨hincl, hnames⟩ := ih h hadd
    refine ⟨hincl, fun name => ?_⟩
    rw [hnames, mem_addProjection, or_assoc]
    simp [selectedFields, hp.field?_eq, eq_comm]

/-- The document of a projection stage. -/
def projectionSpec (fields : List Projection) : Document :=
  fields.map fun p => (p.field.text, .boolean p.included)

theorem keys_projectionSpec (fields : List Projection) :
    Dict.keys (projectionSpec fields) = fields.map fun p => p.field.text := by
  rw [projectionSpec, Dict.keys, List.map_map]
  rfl

theorem mem_completeProjection {selected : List Projection} (hs : selected ≠ []) {p : Projection} :
    p ∈ completeProjection selected ↔
      p ∈ selected ∨ (p = ⟨⟨idField⟩, false⟩ ∧ ¬ ∃ q ∈ selected, q.field.text = idField) := by
  unfold completeProjection
  cases hany : selected.any (·.field.isId) with
  | true =>
    obtain ⟨q, hq, hid⟩ := List.any_eq_true.1 hany
    rw [Bool.or_true, if_pos rfl]
    refine ⟨.inl, fun h => h.resolve_right fun ⟨_, hno⟩ => hno ⟨q, hq, ?_⟩⟩
    simpa [FieldPath.isId] using hid
  | false =>
    have hno : ¬ ∃ q ∈ selected, q.field.text = idField := by
      rintro ⟨q, hq, he⟩
      have := List.any_eq_false.1 hany q hq
      simp [FieldPath.isId, he] at this
    rw [Bool.or_false, if_neg (by rwa [List.isEmpty_iff]), List.mem_append, List.mem_singleton]
    simp [hno]

section Completed

variable {selected : List Projection} {names : List String}

/-- The entries of a completed projection: the selected fields, and the primary key if it is not selected. -/
theorem mem_projectionSpec (hs : selected ≠ []) (hincl : ∀ p ∈ selected, p.included = true)
    (hnames : ∀ name, (∃ p ∈ selected, p.field.text = name) ↔ name ∈ names) {q : String × Value} :
    q ∈ projectionSpec (completeProjection selected) ↔
      (q.1 ∈ names ∧ q.2 = .boolean true) ∨ (q = (idField, .boolean false) ∧ idField ∉ names) := by
  rw [projectionSpec, List.mem_map, ← hnames q.1, ← hnames idField]
  constructor
  · rintro ⟨p, hp, rfl⟩
    rcases (mem_completeProjection hs).1 hp with hp | ⟨rfl, hno⟩
    · exact .inl ⟨⟨p, hp, rfl⟩, by rw [hincl p hp]⟩
    · exact .inr ⟨rfl, hno⟩
  · rintro (⟨⟨p, hp, hname⟩, hq⟩ | ⟨rfl, hno⟩)
    · exact ⟨p, (mem_completeProjection hs).2 (.inl hp), by rw [hname, hincl p hp, ← hq]⟩
    · exact ⟨_, (mem_completeProjection hs).2 (.inr ⟨rfl, hno⟩), rfl⟩

theorem nodup_projectionSpec {fields : List Projection}
    (hc : checkFields .project (fields.map Projection.field) = .ok ()) :
    (Dict.keys (projectionSpec fields)).Nodup := by
  have h := nodup_of_checkFields hc
  rw [List.map_map] at h
  rw [keys_projectionSpec]
  exact h

/-- A completed projection picks the fields selected. -/
theorem project_completed (hincl : ∀ p ∈ selected, p.included = true)
    (hnames : ∀ name, (∃ p ∈ selected, p.field.text = name) ↔ name ∈ names) (hn : names ≠ [])
    (hc : checkFields .project ((completeProjection selected).map Projection.field) = .ok ())
    {rows : List Document} (hrows : ∀ row ∈ rows, (Dict.keys row).Nodup) :
    Pipeline.project rows (projectionSpec (completeProjection selected)) = .ok (rows.map (pick names)) := by
  have hs : selected ≠ [] := by
    rintro rfl
    obtain ⟨name, hm⟩ := List.exists_mem_of_ne_nil _ hn
    simpa using (hnames name).2 hm
  have hmem {q : String × Value} := mem_projectionSpec (q := q) hs hincl hnames
  have hid : Dict.get? (projectionSpec (completeProjection selected)) idField =
      some (.boolean (decide (idField ∈ names))) := by
    refine Dict.get?_of_mem (nodup_projectionSpec hc) (hmem.2 ?_)
    by_cases hm : idField ∈ names
    · exact .inl ⟨hm, by rw [decide_eq_true hm]⟩
    · exact .inr ⟨by rw [decide_eq_false hm], hm⟩
  have hothers : ∀ q ∈ projectionSpec (completeProjection selected), q.1 ≠ idField → q.2 = .boolean true := by
    intro q hq hne
    rcases hmem.1 hq with ⟨-, he⟩ | ⟨rfl, -⟩
    · exact he
    · exact absurd rfl hne
  have hnamed : ∀ name, name ≠ idField →
      (name ∈ Dict.keys (projectionSpec (completeProjection selected)) ↔ name ∈ names) := by
    intro name hne
    constructor
    · intro h
      obtain ⟨q, hq, rfl⟩ := List.mem_map.1 h
      rcases hmem.1 hq with ⟨hm, -⟩ | ⟨rfl, -⟩
      · exact hm
      · exact absurd rfl hne
    · intro h
      exact List.mem_map.2 ⟨(name, .boolean true), hmem.2 (.inl ⟨h, rfl⟩), rfl⟩
  obtain ⟨p, hp, hpicks⟩ := Pipeline.Projecting.ofDocument_picks hid hothers hnamed hn
  rw [Pipeline.project, hp, ok_bind]
  exact congrArg Except.ok (List.map_congr_left fun row hr => hpicks.apply hn (hrows row hr))

end Completed

end Direct
end RelDoc
