import Mathlib.Data.List.Nodup
import RelDoc.Command.Render

/-!
# What events spell

The events of one value, of the fields of a document and of the items of an array, as a grammar:
`Event.Spells es v j` says that `es` are the events of one value, which is `v` where it is built and
`j` where it is written as text. The two differ in repeated names only: a dictionary keeps each once
and a text keeps all.

With the values of its parameters in their places, every part of a well-formed command spells what it
fills in, and the text of that: no document of it repeats a name (`Command.spells`). So what a writer
makes of a command is what it makes of the grammar.
-/

namespace RelDoc

namespace Dict

variable {α : Type}

/-- Insertions of new, distinct names add the entries at the end. -/
theorem insertAll_eq_append {d pairs : Dict α} (h : (keys (d ++ pairs)).Nodup) :
    insertAll d pairs = d ++ pairs := by
  induction pairs generalizing d with
  | nil => simp [insertAll]
  | cons p rest ih =>
    have hp : p.1 ∉ keys d := by
      simp only [keys, List.map_append, List.map_cons, List.nodup_append] at h ⊢
      exact fun hm => h.2.2 _ hm _ (List.mem_cons_self ..) rfl
    have hi : insertAll d (p :: rest) = insertAll (d ++ [p]) rest := by
      show insertAll (insert d p.1 p.2) rest = _
      rw [insert_of_not_mem hp]
    rw [hi, ih (by simpa using h)]
    simp

theorem ofPairs_eq_self {pairs : Dict α} (h : (pairs.map Prod.fst).Nodup) : ofPairs pairs = pairs :=
  insertAll_eq_append (d := []) h

end Dict

namespace Event

/-! ### Parameters in events -/

/-- The event with the value of a parameter in its place. -/
def bound (σ : Nat → Value) : Event → Event
  | placeholder n => scalar (σ n)
  | e => e

@[simp] theorem bound_scalar (σ : Nat → Value) (v : Value) : (scalar v).bound σ = scalar v := by cases v <;> rfl

@[simp] theorem map_bound_inDocument (σ : Nat → Value) (es : List Event) :
    (inDocument es).map (bound σ) = inDocument (es.map (bound σ)) := by
  simp [inDocument, bound]

@[simp] theorem map_bound_inArray (σ : Nat → Value) (es : List Event) :
    (inArray es).map (bound σ) = inArray (es.map (bound σ)) := by
  simp [inArray, bound]

@[simp] theorem map_bound_field (σ : Nat → Value) (k : String) (es : List Event) :
    (field k es).map (bound σ) = field k (es.map (bound σ)) := rfl

/-! ### The grammar -/

mutual
/-- The events are those of one value, which is built as `v` and written as `j`. -/
inductive Spells : List Event → Value → Json → Prop
  | value {e : Event} {v : Value} (h : e.value? = some v) : Spells [e] v v.extended
  /-- The place of a parameter without a value. -/
  | placeholder (n : Nat) : Spells [.placeholder n] .undefined Value.undefined.extended
  | document {es : List Event} {fs : List (String × Value)} {ms : List (String × Json)}
    (h : SpellsFields es fs ms) : Spells (inDocument es) (.document (Dict.ofPairs fs)) (.object ms)
  | array {es : List Event} {vs : List Value} {js : List Json} (h : SpellsItems es vs js) :
    Spells (inArray es) (.array vs) (.array js)

/-- The events are those of named values, one after another. -/
inductive SpellsFields : List Event → List (String × Value) → List (String × Json) → Prop
  | nil : SpellsFields [] [] []
  | cons (k : String) {es : List Event} {v : Value} {j : Json} (h : Spells es v j) {rest : List Event}
    {fs : List (String × Value)} {ms : List (String × Json)} (hr : SpellsFields rest fs ms) :
    SpellsFields (field k es ++ rest) ((k, v) :: fs) ((k, j) :: ms)

/-- The events are those of values, one after another. -/
inductive SpellsItems : List Event → List Value → List Json → Prop
  | nil : SpellsItems [] [] []
  | cons {es : List Event} {v : Value} {j : Json} (h : Spells es v j) {rest : List Event} {vs : List Value}
    {js : List Json} (hr : SpellsItems rest vs js) : SpellsItems (es ++ rest) (v :: vs) (j :: js)
end

namespace SpellsFields

variable {as bs : List Event} {fs gs : List (String × Value)} {ms ns : List (String × Json)}

theorem append (ha : SpellsFields as fs ms) (hb : SpellsFields bs gs ns) :
    SpellsFields (as ++ bs) (fs ++ gs) (ms ++ ns) := by
  induction fs generalizing as ms with
  | nil => cases ha with | nil => exact hb
  | cons f fs ih =>
    cases ha with
    | cons k h hr =>
      rw [List.append_assoc]
      exact .cons k h (ih hr)

theorem single (k : String) {es : List Event} {v : Value} {j : Json} (h : Spells es v j) :
    SpellsFields (field k es) [(k, v)] [(k, j)] := by
  have hk := SpellsFields.cons k h .nil
  rwa [List.append_nil] at hk

theorem flatMap {α : Type} {f : α → List Event} {g : α → String × Value} {xs : List α}
    (h : ∀ x ∈ xs, SpellsFields (f x) [g x] [((g x).1, (g x).2.extended)]) :
    SpellsFields (xs.flatMap f) (xs.map g) (Value.extendedFields (xs.map g)) := by
  induction xs with
  | nil => exact .nil
  | cons x rest ih =>
    have hrest := ih fun y hy => h y (List.mem_cons_of_mem _ hy)
    exact append (h x (List.mem_cons_self ..)) hrest

end SpellsFields

namespace SpellsItems

theorem append {as bs : List Event} {vs ws : List Value} {js ks : List Json} (ha : SpellsItems as vs js)
    (hb : SpellsItems bs ws ks) : SpellsItems (as ++ bs) (vs ++ ws) (js ++ ks) := by
  induction vs generalizing as js with
  | nil => cases ha with | nil => exact hb
  | cons v vs ih =>
    cases ha with
    | cons h hr =>
      rw [List.append_assoc]
      exact .cons h (ih hr)

theorem single {es : List Event} {v : Value} {j : Json} (h : Spells es v j) : SpellsItems es [v] [j] := by
  have hi := SpellsItems.cons h .nil
  rwa [List.append_nil] at hi

theorem flatMap {α : Type} {f : α → List Event} {g : α → Value} {xs : List α}
    (h : ∀ x ∈ xs, Spells (f x) (g x) (g x).extended) :
    SpellsItems (xs.flatMap f) (xs.map g) (Value.extendedItems (xs.map g)) := by
  induction xs with
  | nil => exact .nil
  | cons x rest ih =>
    exact .cons (h x (List.mem_cons_self ..)) (ih fun y hy => h y (List.mem_cons_of_mem _ hy))

end SpellsItems

/-- The events are those of a whole document, which is `d` and repeats no name. -/
def SpellsDocument (es : List Event) (d : Document) : Prop :=
  ∃ inner, es = inDocument inner ∧ SpellsFields inner d (Value.extendedFields d) ∧ (d.map Prod.fst).Nodup

namespace SpellsDocument

variable {es : List Event} {d : Document}

theorem of_fields (h : SpellsFields es d (Value.extendedFields d)) (hn : (d.map Prod.fst).Nodup) :
    SpellsDocument (inDocument es) d := ⟨es, rfl, h, hn⟩

theorem spells (h : SpellsDocument es d) : Spells es (.document d) (Value.document d).extended := by
  obtain ⟨inner, rfl, hi, hn⟩ := h
  have hd := Spells.document hi
  rwa [Dict.ofPairs_eq_self hn, ← Value.extended] at hd

end SpellsDocument
end Event

open Event (Spells SpellsFields SpellsItems SpellsDocument bound inDocument map_bound_inDocument
  map_bound_inArray map_bound_field)

/-! ### Parts of commands -/

variable (σ : Nat → Value)

namespace Term

theorem map_fst_fillFields (fs : List (String × Term)) :
    (fillFields σ fs).map Prod.fst = fs.map Prod.fst := by
  induction fs with
  | nil => rfl
  | cons p rest ih => simp [fillFields, ih]

theorem spellsDocument_of_fields {fs : List (String × Term)} (hn : (fs.map Prod.fst).Nodup)
    (h : SpellsFields ((fieldEvents fs).map (bound σ)) (fillFields σ fs) (Value.extendedFields (fillFields σ fs))) :
    SpellsDocument ((template fs).events.map (bound σ)) (fillFields σ fs) := by
  rw [events, map_bound_inDocument]
  refine .of_fields h ?_
  rw [map_fst_fillFields]
  exact hn

mutual
theorem spells : ∀ t : Term, t.WellFormed →
    Spells (t.events.map (bound σ)) (t.fill σ) (t.fill σ).extended
  | literal v, _ => by
    rw [events, List.map_singleton, Event.bound_scalar]
    exact .value (Event.value?_scalar v)
  | placeholder n, _ => .value (Event.value?_scalar (σ n))
  | template fields, h => by
    rw [WellFormed] at h
    rw [fill]
    exact (spellsDocument_of_fields σ h.1 (spellsFields fields h.2)).spells

theorem spellsFields : ∀ fs : List (String × Term), WellFormedFields fs →
    SpellsFields ((fieldEvents fs).map (bound σ)) (fillFields σ fs) (Value.extendedFields (fillFields σ fs))
  | [], _ => .nil
  | (k, t) :: rest, h => by
    rw [WellFormedFields] at h
    rw [fieldEvents, fillFields, List.map_append]
    exact .cons k (spells t h.1) (spellsFields rest h.2)
end

/-- A template spells a whole document, which may also be a root. -/
theorem spells_template {fields : List (String × Term)} (h : (template fields).WellFormed) :
    SpellsDocument ((template fields).events.map (bound σ)) (fillFields σ fields) := by
  rw [WellFormed] at h
  exact spellsDocument_of_fields σ h.1 (spellsFields σ fields h.2)

end Term

namespace Filter

mutual
theorem spells : ∀ f : Filter, f.WellFormed → SpellsDocument (f.events.map (bound σ)) (f.fill σ)
  | all, _ => .of_fields .nil List.nodup_nil
  | comparison path operator value, h => by
    rw [WellFormed] at h
    rw [events, fill]
    simp only [map_bound_inDocument, map_bound_field]
    have hv := SpellsFields.single operator.token (value.spells σ h)
    have hd := (SpellsDocument.of_fields hv (List.nodup_singleton _)).spells
    exact .of_fields (.single path.text hd) (List.nodup_singleton _)
  | combination operator parts, h => by
    rw [WellFormed] at h
    rw [events, fill]
    simp only [map_bound_inDocument, map_bound_field, map_bound_inArray]
    have ha := Spells.array (spellsItems parts h.2)
    exact .of_fields (.single operator.token ha) (List.nodup_singleton _)

theorem spellsItems : ∀ fs : List Filter, AllWellFormed fs →
    SpellsItems ((listEvents fs).map (bound σ)) (fillList σ fs) (Value.extendedItems (fillList σ fs))
  | [], _ => .nil
  | f :: rest, h => by
    rw [AllWellFormed] at h
    rw [listEvents, fillList, List.map_append]
    exact .cons (spells f h.1).spells (spellsItems rest h.2)
end

end Filter

/-- The names of a clause are distinct. -/
theorem nodup_of_checkFields {clause : FieldClause} {fields : List FieldPath}
    (h : checkFields clause fields = .ok ()) : (fields.map FieldPath.text).Nodup := by
  unfold checkFields at h
  split at h
  · simp at h
  · next hn => exact (firstRepeated_eq_none.1 hn).1

namespace Stage

theorem spells {s : Stage} (h : s.WellFormed) : SpellsDocument (s.events.map (bound σ)) (s.fill σ) := by
  have ha : Spells (s.argumentEvents.map (bound σ)) (s.argument σ) (s.argument σ).extended := by
    cases s with
    | filter f => exact (f.spells σ h).spells
    | project fields =>
      have hn := nodup_of_checkFields h
      simp only [argumentEvents, argument, map_bound_inDocument, List.map_flatMap]
      refine (SpellsDocument.of_fields (.flatMap fun p _ => ?_) (by simpa [Function.comp_def] using hn)).spells
      exact .single p.field.text (.value rfl)
    | sort keys =>
      have hn := nodup_of_checkFields h
      simp only [argumentEvents, argument, map_bound_inDocument, List.map_flatMap]
      refine (SpellsDocument.of_fields (.flatMap fun k _ => ?_) (by simpa [Function.comp_def] using hn)).spells
      exact .single k.field.text (.value rfl)
    | skip count => exact count.spells σ h.2
    | limit count => exact count.spells σ h.2
  rw [events, map_bound_inDocument, map_bound_field]
  exact .of_fields (.single s.name ha) (List.nodup_singleton _)

end Stage

namespace Command

theorem name_ne_partName (c : Command) : c.name ≠ c.partName := by
  cases c <;> simp [name, partName]

/-- The assignments of an update make one document. -/
theorem spells_updates {updates : List FieldUpdate}
    (hn : checkFields .set (updates.map FieldUpdate.field) = .ok ()) (hu : ∀ u ∈ updates, u.value.WellFormed) :
    SpellsDocument (inDocument (updates.flatMap fun u => (FieldUpdate.events u).map (bound σ)))
      (updates.map fun u => (u.field.text, u.value.fill σ)) := by
  have hn := nodup_of_checkFields hn
  refine .of_fields (.flatMap fun u hm => ?_) (by simpa [Function.comp_def] using hn)
  exact .single u.field.text (u.value.spells σ (hu u hm))

theorem spells_parts {c : Command} (h : c.WellFormed) :
    SpellsItems (c.partEvents.map (bound σ)) (c.parts σ) (Value.extendedItems (c.parts σ)) := by
  cases c with
  | insert _ documents =>
    simp only [partEvents, parts, List.map_flatMap]
    exact .flatMap fun d hd => Term.spells σ (.template d) (h.2 d hd)
  | update _ f updates =>
    obtain ⟨hf, hn, hu⟩ := h
    have hq := SpellsFields.single "q" (f.spells σ hf).spells
    have hs := SpellsDocument.of_fields (.single FieldClause.set.token (spells_updates σ hn hu).spells)
      (List.nodup_singleton _)
    have hm := SpellsFields.single "multi" (Spells.value (e := .boolean !f.pinsId) rfl)
    have hall := (hq.append (.single "u" hs.spells)).append hm
    simp only [partEvents, parts, map_bound_inDocument, map_bound_field, List.map_append, List.map_flatMap]
    have hkeys : ["q", "u", "multi"].Nodup := by decide
    exact .single (SpellsDocument.of_fields hall hkeys).spells
  | delete _ f =>
    have hq := SpellsFields.single "q" (f.spells σ h).spells
    have hall := hq.append (.single "limit" (Spells.value (e := .int32 0) rfl))
    simp only [partEvents, parts, map_bound_inDocument, map_bound_field, List.map_append]
    have hkeys : ["q", "limit"].Nodup := by decide
    exact .single (SpellsDocument.of_fields hall hkeys).spells
  | aggregate _ pipeline =>
    simp only [partEvents, parts, List.map_flatMap]
    exact .flatMap fun s hs => (Stage.spells σ (h s hs)).spells

/-- A command with the values of its parameters spells the document that it fills in. -/
theorem spells {c : Command} (h : c.WellFormed) : SpellsDocument (c.events.map (bound σ)) (c.fill σ) := by
  have hp := spells_parts σ h
  have hn : [c.name, c.partName].Nodup := by simp [c.name_ne_partName]
  simp only [events, map_bound_inDocument, List.map_append, map_bound_field, map_bound_inArray]
  exact .of_fields ((SpellsFields.single c.name (.value rfl)).append (.single c.partName (.array hp))) hn

end Command
end RelDoc
