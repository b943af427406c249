import RelDoc.Proofs.Query

/-!
# The pipeline of a SELECT

Each clause of a SELECT that is there makes one stage, in a fixed order (`Select.stageNames`). The fields of the
select list and of the ORDER BY list are collected in loops that pass over a field that was found before, so different
columns of one field are one entry, at the place of the first of them (`foldl_addNew`). The stages are therefore known
from the fields that the clauses name (`SelectStages`), and `SelectStages.pipeline` is what planning puts out.
-/

namespace RelDoc

open Outcome

/-! ### First occurrences -/

section
variable {α β κ : Type}

theorem eraseDupsBy_map (r : β → β → Bool) (f : α → β) (as : List α) :
    (as.map f).eraseDupsBy r = (as.eraseDupsBy fun a b => r (f a) (f b)).map f := by
  match as with
  | [] => rfl
  | a :: rest =>
    have hlength := List.length_filter_le (fun b => decide (r (f b) (f a) = false)) rest
    have hrest := eraseDupsBy_map r f (rest.filter fun b => decide (r (f b) (f a) = false))
    rw [List.map_cons, List.eraseDupsBy_cons, List.eraseDupsBy_cons, List.map_cons, List.filter_map, ← hrest]
    rfl
termination_by as.length
decreasing_by simp only [List.length_cons]; omega

theorem nodup_eraseDups [DecidableEq κ] (as : List κ) : as.eraseDups.Nodup := by
  match as with
  | [] => exact List.nodup_nil
  | a :: rest =>
    have hlength := List.length_filter_le (fun b => !b == a) rest
    rw [List.eraseDups_cons, List.nodup_cons]
    refine ⟨fun ha => ?_, nodup_eraseDups _⟩
    simp at ha
termination_by as.length
decreasing_by simp only [List.length_cons]; omega

theorem eraseDupsBy_eq_nil {r : α → α → Bool} {as : List α} : as.eraseDupsBy r = [] ↔ as = [] := by
  cases as with
  | nil => simp
  | cons a rest => simp [List.eraseDupsBy_cons]

theorem isEmpty_of_forall₂ {r : α → β → Prop} {as : List α} {bs : List β} (h : List.Forall₂ r as bs) :
    as.isEmpty = bs.isEmpty := by
  cases h <;> rfl

variable [DecidableEq κ] (key : α → κ)

/-- Adds an entry to the end unless its key is there. -/
def addNew (found : List α) (a : α) : List α := if found.any (key · = key a) then found else found ++ [a]

/-- To add entries one after another keeps the first of each key. -/
theorem foldl_addNew (found as : List α) : as.foldl (addNew key) found =
    found ++ (as.filter fun a => !found.any (key · = key a)).eraseDupsBy fun a b => key a == key b := by
  induction as generalizing found with
  | nil => simp
  | cons a rest ih =>
    rw [List.foldl_cons, ih, addNew]
    -- `ih` speaks of the longer list of found entries if `a` is new
    cases hfound : found.any (key · = key a) with
    | true => simp [hfound]
    | false =>
      have hnew : (a :: rest).filter (fun b => !found.any (key · = key b)) =
          a :: rest.filter fun b => !found.any (key · = key b) := by
        rw [List.filter_cons_of_pos (by rw [hfound]; rfl)]
      -- a later entry with the key of `a` is passed over for `a`
      have hlater : (rest.filter fun b => !(found ++ [a]).any (key · = key b)) =
          (rest.filter fun b => !found.any (key · = key b)).filter fun b => decide ((key b == key a) = false) := by
        rw [List.filter_filter]
        refine List.filter_congr fun b _ => ?_
        by_cases hkey : key a = key b <;> simp [hkey, Ne.symm]
      rw [if_neg (by decide), hnew, List.eraseDupsBy_cons, hlater, List.append_assoc, List.singleton_append]

theorem foldl_addNew_nil (as : List α) : as.foldl (addNew key) [] = as.eraseDupsBy fun a b => key a == key b := by
  rw [foldl_addNew]
  simp

theorem map_eraseDupsBy (as : List α) : (as.eraseDupsBy fun a b => key a == key b).map key = (as.map key).eraseDups :=
  (eraseDupsBy_map (fun a b : κ => a == b) key as).symm

end

/-! ### Projected fields -/

/-- Each field once, in the order of the list, and the primary key left out if it is not in the list. -/
def onceEach (fields : List FieldPath) : List Projection :=
  fields.eraseDups.map (⟨·, true⟩) ++ if ⟨idField⟩ ∈ fields then [] else [⟨⟨idField⟩, false⟩]

section
variable {fields : List FieldPath}

theorem mem_onceEach {field : FieldPath} : ⟨field, true⟩ ∈ onceEach fields ↔ field ∈ fields := by
  rw [onceEach, List.mem_append, List.mem_map]
  split <;> simp

theorem onceEach_ne_nil : onceEach fields ≠ [] := by
  intro hnil
  by_cases hmem : ⟨idField⟩ ∈ fields
  · have hid := mem_onceEach.2 hmem
    rw [hnil] at hid
    exact List.not_mem_nil hid
  · rw [onceEach, if_neg hmem] at hnil
    simp at hnil

theorem nodup_onceEach : ((onceEach fields).map Projection.field).Nodup := by
  have hfields : (fields.eraseDups.map fun field => (⟨field, true⟩ : Projection)).map Projection.field =
      fields.eraseDups := by
    rw [List.map_map]
    exact List.map_id _
  rw [onceEach, List.map_append, hfields]
  split
  · rw [List.map_nil, List.append_nil]
    exact nodup_eraseDups _
  · next hno =>
    refine List.nodup_append.2 ⟨nodup_eraseDups _, List.nodup_singleton _, fun field hfield other hother => ?_⟩
    obtain rfl := List.mem_singleton.1 hother
    rw [List.mem_eraseDups] at hfield
    exact ne_of_mem_of_not_mem hfield hno

theorem completeProjection_eq (hne : fields ≠ []) :
    completeProjection ((fields.map fun field => (⟨field, true⟩ : Projection)).foldl (addNew Projection.field) []) =
      onceEach fields := by
  have hselected : (fields.map fun field => (⟨field, true⟩ : Projection)).foldl (addNew Projection.field) [] =
      fields.eraseDups.map (⟨·, true⟩) := by
    rw [foldl_addNew_nil, eraseDupsBy_map]
    rfl
  have hempty : (fields.eraseDups.map fun field => (⟨field, true⟩ : Projection)).isEmpty = false := by
    rw [List.isEmpty_eq_false_iff, Ne, List.map_eq_nil_iff]
    exact fun h => hne (eraseDupsBy_eq_nil.1 h)
  have hid : (fields.eraseDups.map fun field => (⟨field, true⟩ : Projection)).any (·.field.isId) = true ↔
      ⟨idField⟩ ∈ fields := by
    rw [List.any_map, List.any_eq_true]
    constructor
    · rintro ⟨⟨text⟩, hfield, hid⟩
      rw [List.mem_eraseDups] at hfield
      obtain rfl : text = idField := by simpa [FieldPath.isId] using hid
      exact hfield
    · intro hmem
      exact ⟨_, List.mem_eraseDups.2 hmem, by simp [FieldPath.isId]⟩
  rw [hselected, completeProjection, hempty, Bool.false_or, onceEach]
  by_cases hmem : ⟨idField⟩ ∈ fields
  · rw [if_pos (hid.2 hmem), if_pos hmem, List.append_nil]
  · rw [if_neg (mt hid.1 hmem), if_neg hmem]

end

/-! ### What the clauses name -/

/-- The stages of a SELECT by the clauses that are there. -/
def Select.stageNames (s : Select) : List String :=
  (if s.restriction.isSome then ["$match"] else []) ++ (if s.selections.isEmpty then [] else ["$project"]) ++
    (if s.orderBy.isEmpty then [] else ["$sort"]) ++ (if s.offset.isSome then ["$skip"] else []) ++
    (if s.fetch.isSome then ["$limit"] else [])

/-- What the clauses of a translated SELECT stand for: the fields of the select list and the keys of the ORDER BY list
come one for each item, repeated ones included. -/
structure SelectStages (d : Dialect) (s : Select) where
  filter : Option Filter
  fields : List FieldPath
  keys : List SortKey
  skip : Option Term
  limit : Option Term
  filters : Option.Rel (fun p f => Direct.filter d (some s.table) p = .ok f) s.restriction filter
  selects : List.Forall₂ (fun i field => d.Plans s.table i.expression (.field field)) s.selections fields
  orders : List.Forall₂ (fun i k => k.direction = i.direction ∧ d.Plans s.table i.expression (.field k.field))
    s.orderBy keys
  skips : Option.Rel (fun e term => d.Plans s.table e (.value term)) s.offset skip
  limits : Option.Rel (fun e term => d.Plans s.table e (.value term)) s.fetch limit
  shown : s.selections ≠ [] → ∀ k ∈ keys, k.field ∈ fields

namespace SelectStages

variable {d : Dialect} {s : Select} (p : SelectStages d s)

/-- The first key of each field. -/
def sorted : List SortKey := p.keys.eraseDupsBy fun a b => a.field == b.field

def pipeline : List Stage :=
  (p.filter.map Stage.filter).toList ++ (if s.selections.isEmpty then [] else [.project (onceEach p.fields)]) ++
    (if s.orderBy.isEmpty then [] else [.sort p.sorted]) ++ (p.skip.map Stage.skip).toList ++
    (p.limit.map Stage.limit).toList

theorem nodup_sorted : (p.sorted.map SortKey.field).Nodup := by
  rw [sorted, map_eraseDupsBy]
  exact nodup_eraseDups _

/-- A sort key that is kept has the field of one that was named. -/
theorem field_mem_of_sorted {k : SortKey} (hk : k ∈ p.sorted) : k.field ∈ p.keys.map SortKey.field := by
  have hmem : k.field ∈ p.sorted.map SortKey.field := List.mem_map_of_mem hk
  rwa [sorted, map_eraseDupsBy, List.mem_eraseDups] at hmem

theorem included_of_sorted (hs : s.selections ≠ []) {k : SortKey} (hk : k ∈ p.sorted) :
    ⟨k.field, true⟩ ∈ onceEach p.fields := by
  obtain ⟨named, hnamed, hfield⟩ := List.mem_map.1 (p.field_mem_of_sorted hk)
  rw [mem_onceEach, ← hfield]
  exact p.shown hs named hnamed

theorem map_name_clause {α γ : Type} {r : α → γ → Prop} {clause : Option α} {part : Option γ}
    (h : Option.Rel r clause part) {stage : γ → Stage} {name : String} (hname : ∀ a, (stage a).name = name) :
    (part.map stage).toList.map Stage.name = if clause.isSome then [name] else [] := by
  cases h with
  | none => rfl
  | some _ => simp [hname]

theorem map_name_pipeline : p.pipeline.map Stage.name = s.stageNames := by
  have hfilter : (p.filter.map Stage.filter).toList.map Stage.name = if s.restriction.isSome then ["$match"] else [] :=
    map_name_clause p.filters fun _ => rfl
  have hskip : (p.skip.map Stage.skip).toList.map Stage.name = if s.offset.isSome then ["$skip"] else [] :=
    map_name_clause p.skips fun _ => rfl
  have hlimit : (p.limit.map Stage.limit).toList.map Stage.name = if s.fetch.isSome then ["$limit"] else [] :=
    map_name_clause p.limits fun _ => rfl
  have hlist (empty : Bool) (stage : Stage) : (if empty then [] else [stage]).map Stage.name =
      if empty then [] else [stage.name] := by cases empty <;> rfl
  rw [pipeline, List.map_append, List.map_append, List.map_append, List.map_append, hfilter, hskip, hlimit, hlist,
    hlist]
  rfl

end SelectStages

theorem Select.stageNames_sublist (s : Select) :
    s.stageNames.Sublist ["$match", "$project", "$sort", "$skip", "$limit"] := by
  have hthere (clause : Bool) (name : String) : (if clause then [name] else []).Sublist [name] := by
    cases clause
    · exact List.nil_sublist _
    · exact .refl _
  have hlist (empty : Bool) (name : String) : (if empty then [] else [name]).Sublist [name] := by
    cases empty
    · exact .refl _
    · exact List.nil_sublist _
  exact ((((hthere _ "$match").append (hlist _ "$project")).append (hlist _ "$sort")).append (hthere _ "$skip")).append
    (hthere _ "$limit")

/-! ### The loops -/

namespace Direct

variable {d : Dialect} {t : Table}

theorem projections_eq_foldl {found selected : List Projection} {items : List Selection}
    (h : projections d (some t) found items = .ok selected) : ∃ fields : List FieldPath,
      List.Forall₂ (fun i field => d.Plans t i.expression (.field field)) items fields ∧
        selected = (fields.map fun field => ⟨field, true⟩).foldl (addNew Projection.field) found := by
  induction items generalizing found with
  | nil => exact ⟨[], .nil, (Except.ok.inj h).symm⟩
  | cons i rest ih =>
    obtain ⟨q, hq, h⟩ := bind_eq_ok.1 h
    obtain ⟨hincluded, hplan⟩ := projection_eq_ok hq
    obtain ⟨fields, hfields, hselected⟩ := ih h
    refine ⟨q.field :: fields, .cons hplan hfields, ?_⟩
    rw [hselected, List.map_cons, List.foldl_cons, ← hincluded]
    rfl

theorem addSortKey_eq_addNew {fields : List Projection} {found keys : List SortKey} {k : SortKey}
    (h : addSortKey fields found k = .ok keys) :
    keys = addNew SortKey.field found k ∧ (fields ≠ [] → ⟨k.field, true⟩ ∈ fields) := by
  unfold addSortKey at h
  split at h
  · simp at h
  · next hshown =>
    constructor
    · rw [addNew]
      split at h
      · next hfound => rw [if_pos hfound, ← Except.ok.inj h]
      · next hnew => rw [if_neg hnew, ← Except.ok.inj h]
    · intro hne
      have hany : fields.any (fun q => q.included && q.field = k.field) = true := by
        simpa [List.isEmpty_eq_false_iff.2 hne] using hshown
      obtain ⟨⟨field, included⟩, hq, hmatch⟩ := List.any_eq_true.1 hany
      rw [Bool.and_eq_true, decide_eq_true_iff] at hmatch
      obtain ⟨rfl, rfl⟩ := hmatch
      exact hq

theorem sortKeys_eq_foldl {fields : List Projection} {found keys : List SortKey} {items : List SortItem}
    (h : sortKeys d (some t) fields found items = .ok keys) : ∃ named : List SortKey,
      List.Forall₂ (fun i k => k.direction = i.direction ∧ d.Plans t i.expression (.field k.field)) items named ∧
        keys = named.foldl (addNew SortKey.field) found ∧ (fields ≠ [] → ∀ k ∈ named, ⟨k.field, true⟩ ∈ fields) := by
  induction items generalizing found with
  | nil => exact ⟨[], .nil, (Except.ok.inj h).symm, fun _ _ hk => absurd hk List.not_mem_nil⟩
  | cons i rest ih =>
    obtain ⟨k, hk, h⟩ := bind_eq_ok.1 h
    obtain ⟨found', hadd, h⟩ := bind_eq_ok.1 h
    obtain ⟨rfl, hfirst⟩ := addSortKey_eq_addNew hadd
    obtain ⟨named, hnamed, hkeys, hrest⟩ := ih h
    exact ⟨k :: named, .cons (sortKey_eq_ok hk) hnamed, hkeys,
      fun hne => List.forall_mem_cons.2 ⟨hfirst hne, hrest hne⟩⟩

/-! ### The command -/

variable {s : Select}

theorem filterStage_eq_toList {r : Option Predicate} {stages : List Stage} (h : filterStage d (some t) r = .ok stages) :
    ∃ part, Option.Rel (fun p f => filter d (some t) p = .ok f) r part ∧ stages = (part.map Stage.filter).toList := by
  rcases filterStage_eq_ok h with ⟨rfl, rfl⟩ | ⟨p, f, rfl, hf, rfl⟩
  · exact ⟨none, .none, rfl⟩
  · exact ⟨some f, .some hf, rfl⟩

theorem countStage_eq_toList {kind : CountStage} {clause : Option Expression} {stages : List Stage}
    (h : countStage d (some t) kind clause = .ok stages) : ∃ part,
      Option.Rel (fun e term => d.Plans t e (.value term)) clause part ∧ stages = (part.map kind.stage).toList := by
  rcases countStage_eq_ok h with ⟨rfl, rfl⟩ | ⟨e, term, rfl, hplan, -, rfl⟩
  · exact ⟨none, .none, rfl⟩
  · exact ⟨some term, .some hplan, rfl⟩

theorem projectStage_eq_once {fields : List FieldPath} {stages : List Stage}
    (h : projectStage (completeProjection
      ((fields.map fun field => (⟨field, true⟩ : Projection)).foldl (addNew Projection.field) [])) = .ok stages) :
    stages = if fields.isEmpty then [] else [.project (onceEach fields)] := by
  cases hempty : fields.isEmpty with
  | true =>
    rw [List.isEmpty_iff.1 hempty] at h
    exact (Except.ok.inj h).symm
  | false =>
    rw [completeProjection_eq (List.isEmpty_eq_false_iff.1 hempty)] at h
    rcases projectStage_eq_ok h with ⟨hnil, -⟩ | ⟨-, -, hstage⟩
    · exact absurd hnil onceEach_ne_nil
    · exact hstage

theorem sortStage_eq_first {named : List SortKey} {stages : List Stage}
    (h : sortStage (named.foldl (addNew SortKey.field) []) = .ok stages) :
    stages = if named.isEmpty then [] else [.sort (named.eraseDupsBy fun a b => a.field == b.field)] := by
  rw [foldl_addNew_nil] at h
  cases hempty : named.isEmpty with
  | true =>
    rw [List.isEmpty_iff.1 hempty] at h
    exact (Except.ok.inj h).symm
  | false =>
    rcases sortStage_eq_ok h with ⟨hnil, -⟩ | ⟨-, hstage⟩
    · exact absurd (eraseDupsBy_eq_nil.1 hnil) (List.isEmpty_eq_false_iff.1 hempty)
    · exact hstage

theorem SelectParts.stages (parts : SelectParts d s) : ∃ p : SelectStages d s,
    parts.filter ++ parts.project ++ parts.sort ++ parts.skip ++ parts.limit = p.pipeline := by
  obtain ⟨filter, hfilter, hfilterStage⟩ := filterStage_eq_toList parts.filter_eq
  obtain ⟨skip, hskip, hskipStage⟩ := countStage_eq_toList parts.skip_eq
  obtain ⟨limit, hlimit, hlimitStage⟩ := countStage_eq_toList parts.limit_eq
  obtain ⟨fields, hfields, hselected⟩ := projections_eq_foldl parts.selected_eq
  obtain ⟨named, hnamed, hkeys, hshown⟩ := sortKeys_eq_foldl parts.keys_eq
  rw [hselected] at hshown
  have hkept : s.selections ≠ [] → ∀ k ∈ named, k.field ∈ fields := by
    intro hs k hk
    have hne : fields ≠ [] := by
      rintro rfl
      exact hs (List.forall₂_nil_right_iff.1 hfields)
    rw [completeProjection_eq hne] at hshown
    exact mem_onceEach.1 (hshown onceEach_ne_nil k hk)
  have hproject : parts.project = if fields.isEmpty then [] else [.project (onceEach fields)] :=
    projectStage_eq_once (hselected ▸ parts.project_eq)
  have hsort : parts.sort =
      if named.isEmpty then [] else [.sort (named.eraseDupsBy fun a b => a.field == b.field)] :=
    sortStage_eq_first (hkeys ▸ parts.sort_eq)
  refine ⟨⟨filter, fields, named, skip, limit, hfilter, hfields, hnamed, hskip, hlimit, hkept⟩, ?_⟩
  rw [hfilterStage, hproject, hsort, hskipStage, hlimitStage, SelectStages.pipeline, isEmpty_of_forall₂ hfields,
    isEmpty_of_forall₂ hnamed]
  rfl

end Direct

/-- The pipeline of a translated SELECT has one stage for each clause that is there, in the order of `Select.stageNames`.
It projects the selected fields once each in the order of the select list, and leaves the primary key out unless it is
selected. It sorts by the fields of the ORDER BY list once each in the order of that list, in the direction of the first
item of each, and a projection in front of it keeps all of them. -/
theorem Dialect.commandOf_select {d : Dialect} {s : Select} {c : Command} (h : d.commandOf (.select s) = .ok c) :
    ∃ (collection : String) (p : SelectStages d s), d.catalog.collectionOf s.table.name = .ok collection ∧
      c = .aggregate collection p.pipeline ∧ p.pipeline.map Stage.name = s.stageNames ∧
      s.stageNames.Sublist ["$match", "$project", "$sort", "$skip", "$limit"] ∧
      ((onceEach p.fields).map Projection.field).Nodup ∧ (p.sorted.map SortKey.field).Nodup ∧
      (s.selections ≠ [] → ∀ k ∈ p.sorted, ⟨k.field, true⟩ ∈ onceEach p.fields) := by
  rw [d.commandOf_eq] at h
  obtain ⟨parts, rfl⟩ := Direct.select_eq_ok h
  obtain ⟨p, hp⟩ := Direct.SelectParts.stages parts
  refine ⟨parts.collection, p, parts.collection_eq, ?_, p.map_name_pipeline, s.stageNames_sublist, nodup_onceEach,
    p.nodup_sorted, fun hs k hk => p.included_of_sorted hs hk⟩
  rw [Direct.SelectParts.command, hp]

/-- Books that have one field for two columns. -/
def Dialect.library : Dialect where
  catalog := .ofMappings
    [{ table := "book", collection := "books", idColumn := some "id",
       columns := [("title", "title"), ("name", "title"), ("year", "year")] }]
  codec := .exact

/-- `SELECT title, b.year, book.name FROM book b ORDER BY b.name DESC, year, title` -/
def Select.titles : Select where
  table := ⟨"book", some "b"⟩
  selections := [⟨.column ⟨none, "title"⟩, none⟩, ⟨.column ⟨some "b", "year"⟩, none⟩,
    ⟨.column ⟨some "book", "name"⟩, none⟩]
  orderBy := [⟨.column ⟨some "b", "name"⟩, .descending⟩, ⟨.column ⟨none, "year"⟩, .ascending⟩,
    ⟨.column ⟨none, "title"⟩, .ascending⟩]

theorem Dialect.commandOf_select_titles : ∃ p : SelectStages .library .titles,
    Dialect.library.commandOf (.select .titles) = .ok (.aggregate "books" p.pipeline) ∧
    p.pipeline = [.project [⟨⟨"title"⟩, true⟩, ⟨⟨"year"⟩, true⟩, ⟨⟨"_id"⟩, false⟩],
      .sort [⟨⟨"title"⟩, .descending⟩, ⟨⟨"year"⟩, .ascending⟩]] ∧
    ∀ k ∈ p.sorted, ⟨k.field, true⟩ ∈ onceEach p.fields := by
  have hplan : Dialect.library.commandOf (.select .titles) = .ok (.aggregate "books"
      [.project [⟨⟨"title"⟩, true⟩, ⟨⟨"year"⟩, true⟩, ⟨⟨"_id"⟩, false⟩],
        .sort [⟨⟨"title"⟩, .descending⟩, ⟨⟨"year"⟩, .ascending⟩]]) := (Dialect.library.commandOf_eq _).trans rfl
  obtain ⟨collection, p, -, hc, -, -, -, -, hshown⟩ := commandOf_select hplan
  obtain ⟨rfl, hpipeline⟩ := Command.aggregate.inj hc
  refine ⟨p, ?_, hpipeline.symm, hshown (List.cons_ne_nil _ _)⟩
  rw [← hpipeline]
  exact hplan

end RelDoc
