import RelDoc.Proofs.Filling
import RelDoc.Proofs.Planned

/-!
# Trees put together by the constructors

`Built` says of a term, a filter, a stage or a command that it was put together by its checked
constructors, each of which accepted what it was given. What they check adds up: such a tree is well
formed all the way down (`Command.Built.wellFormed`), so no name is written twice in one document and a
command is written as the document that it fills in (`Command.Built.written`).
-/

namespace RelDoc

open Outcome

inductive Term.Built : Term → Prop where
  | value (v : Value) {t : Term} (h : Term.ofValue v = .ok t) : Built t
  | placeholder (position : Nat) : Built (.placeholder position)
  | template (fields : List (String × Term)) {doc : Template} (hf : ∀ p ∈ fields, Built p.2)
    (h : Template.ofFields fields = .ok doc) : Built (.template doc)

inductive Filter.Built : Filter → Prop where
  | all : Built .all
  | comparison (path : FieldPath) (operator : QueryOperator) {value : Term} (h : value.Built) :
    Built (.comparison path operator value)
  | combine (operator : Combinator) (parts : List Filter) {f : Filter} (hp : ∀ g ∈ parts, Built g)
    (h : Filter.combine operator parts = .ok f) : Built f

inductive Stage.Built : Stage → Prop where
  | filter {f : Filter} (h : f.Built) : Built (.filter f)
  | project (fields : List Projection) {s : Stage} (h : Stage.ofProjections fields = .ok s) : Built s
  | sort (keys : List SortKey) {s : Stage} (h : Stage.ofSortKeys keys = .ok s) : Built s
  | count (kind : CountStage) {count : Term} {s : Stage} (hc : count.Built) (h : Stage.ofCount kind count = .ok s) :
    Built s

inductive Command.Built : Command → Prop where
  | insert (collection : String) (documents : List Template) {c : Command}
    (hd : ∀ d ∈ documents, (Term.template d).Built) (h : Command.ofDocuments collection documents = .ok c) :
    Built c
  | update (collection : String) (filter : Filter) (updates : List FieldUpdate) {c : Command}
    (hf : filter.Built) (hu : ∀ u ∈ updates, u.value.Built)
    (h : Command.ofUpdates collection filter updates = .ok c) : Built c
  | delete (collection : String) {filter : Filter} (hf : filter.Built) : Built (.delete collection filter)
  | aggregate (collection : String) {pipeline : List Stage} (hs : ∀ s ∈ pipeline, s.Built) :
    Built (.aggregate collection pipeline)

/-! ### What the constructors guarantee -/

theorem Term.wellFormedFields_iff {fields : List (String × Term)} :
    WellFormedFields fields ↔ ∀ p ∈ fields, p.2.WellFormed := by
  induction fields with
  | nil => simp [WellFormedFields]
  | cons p rest ih => simp [WellFormedFields, ih]

theorem Filter.allWellFormed_iff {parts : List Filter} : AllWellFormed parts ↔ ∀ f ∈ parts, f.WellFormed := by
  induction parts with
  | nil => simp [AllWellFormed]
  | cons f rest ih => simp [AllWellFormed, ih]

namespace Term.Built

theorem wellFormed {t : Term} (h : t.Built) : t.WellFormed := by
  induction h with
  | value v h =>
    obtain ⟨hs, rfl⟩ := Term.ofValue_eq_ok h
    rw [WellFormed]
    exact hs
  | placeholder position =>
    rw [WellFormed]
    trivial
  | template fields hf h ih =>
    obtain ⟨hn, rfl⟩ := Template.ofFields_eq_ok h
    rw [WellFormed]
    exact ⟨hn, wellFormedFields_iff.2 ih⟩

end Term.Built

namespace Filter.Built

theorem wellFormed {f : Filter} (h : f.Built) : f.WellFormed := by
  induction h with
  | all =>
    rw [WellFormed]
    trivial
  | comparison path operator h =>
    rw [WellFormed]
    exact h.wellFormed
  | combine operator parts hp h ih =>
    obtain ⟨hn, rfl⟩ := Filter.combine_eq_ok h
    rw [WellFormed]
    exact ⟨hn, allWellFormed_iff.2 ih⟩

end Filter.Built

namespace Stage.Built

theorem wellFormed {s : Stage} (h : s.Built) : s.WellFormed := by
  cases h with
  | filter h => exact h.wellFormed
  | project fields h =>
    obtain ⟨_, hc, h⟩ := bind_eq_ok.1 h
    obtain rfl := Except.ok.inj h
    exact hc
  | sort keys h =>
    obtain ⟨_, hc, h⟩ := bind_eq_ok.1 h
    obtain rfl := Except.ok.inj h
    exact hc
  | count kind ht h =>
    obtain ⟨_, hc, h⟩ := bind_eq_ok.1 h
    obtain rfl := Except.ok.inj h
    exact (kind.wellFormed_stage _).2 ⟨hc, ht.wellFormed⟩

end Stage.Built

namespace Command.Built

theorem wellFormed {c : Command} (h : c.Built) : c.WellFormed := by
  cases h with
  | insert collection documents hd h =>
    unfold ofDocuments at h
    split at h
    · simp at h
    · next hn =>
      obtain rfl := Except.ok.inj h
      exact ⟨fun he => hn (by rw [he]; rfl), fun d hm => (hd d hm).wellFormed⟩
  | update collection filter updates hf hu h =>
    obtain ⟨_, hc, h⟩ := Outcome.bind_eq_ok.1 h
    obtain rfl := Except.ok.inj h
    exact ⟨hf.wellFormed, hc, fun u hm => (hu u hm).wellFormed⟩
  | delete collection hf => exact hf.wellFormed
  | aggregate collection hs => exact fun s hm => (hs s hm).wellFormed

end Command.Built

/-! ### Writing without values -/

/-- Events may be exchanged for others that a writer takes the same way. -/
theorem Writer.sendAll_map {ω : Type} [Writer ω] {f : Event → Event}
    (h : ∀ (w : ω) (e : Event), send w (f e) = send w e) (w : ω) (es : List Event) :
    sendAll w (es.map f) = sendAll w es := by
  induction es generalizing w with
  | nil => rfl
  | cons e rest ih => simp only [List.map_cons, sendAll, h, ih]

/-- A builder takes the place of a parameter as `undefined`. -/
theorem Builder.sendAll_undefined (b : Builder) (es : List Event) :
    Writer.sendAll b (es.map (Event.bound fun _ => .undefined)) = Writer.sendAll b es :=
  Writer.sendAll_map (fun b e => by cases e <;> rfl) b es

namespace Command

theorem toDocument_eq_ok {c : Command} (h : c.WellFormed) : c.toDocument = .ok (c.fill fun _ => .undefined) := by
  have hs := c.builds (fun _ => .undefined) h
  rw [Builder.sendAll_undefined] at hs
  rw [toDocument, writeTo, hs]
  rfl

/-- A command is written as the document that it fills in: with `undefined` in the places of parameters,
or with their values if those are exactly the values that the command asks for. -/
theorem Built.written {c : Command} (h : c.Built) :
    c.toDocument = .ok (c.fill fun _ => .undefined) ∧
      (∀ values doc, c.bind values = .ok doc ↔
        (∀ n, n ∈ c.positions ↔ n < values.length) ∧ doc = c.fill (valuesAt values)) ∧
      ∀ values, (¬ ∀ n, n ∈ c.positions ↔ n < values.length) →
        ∃ e, c.bind values = .error e ∧ e.category = .parameter :=
  ⟨toDocument_eq_ok h.wellFormed, fun _ _ => bind_eq_ok_iff h.wellFormed, fun _ => bind_eq_error h.wellFormed⟩

end Command

/-- A person with a place inside; the second parameter stands in two positions. -/
def Template.person : Template :=
  [("name", .placeholder 1), ("place", .template [("zip", .placeholder 0), ("code", .placeholder 1)]),
    ("years", .literal (.int32 40))]

theorem Template.built_person : (Term.template person).Built := by
  refine .template person (fun p hp => ?_) rfl
  simp only [person, List.mem_cons, List.not_mem_nil, or_false] at hp
  rcases hp with rfl | rfl | rfl
  · exact .placeholder 1
  · refine .template [("zip", .placeholder 0), ("code", .placeholder 1)] (fun q hq => ?_) rfl
    simp only [List.mem_cons, List.not_mem_nil, or_false] at hq
    rcases hq with rfl | rfl <;> exact .placeholder _
  · exact .value (.int32 40) rfl

/-- A document with an operator for a name is a value like any other, and one value is too few. -/
theorem Command.Built.written_person : (Command.insert "persons" [Template.person]).Built ∧
    (Command.insert "persons" [Template.person]).bind [.null, .document [("$gt", .array [])]] =
      .ok [("insert", .string "persons"), ("documents", .array [.document
        [("name", .document [("$gt", .array [])]),
          ("place", .document [("zip", .null), ("code", .document [("$gt", .array [])])]),
          ("years", .int32 40)]])] ∧
    ∃ e, (Command.insert "persons" [Template.person]).bind [.null] = .error e ∧ e.category = .parameter := by
  have hb : (Command.insert "persons" [Template.person]).Built := by
    refine .insert "persons" [Template.person] (fun d hd => ?_) rfl
    obtain rfl := List.mem_singleton.1 hd
    exact Template.built_person
  have hp : (Command.insert "persons" [Template.person]).positions = [1, 0, 1] := rfl
  obtain ⟨-, hok, herror⟩ := Command.Built.written hb
  refine ⟨hb, (hok _ _).2 ⟨fun n => ?_, rfl⟩, herror [.null] fun h => ?_⟩
  · rw [hp]
    simp only [List.mem_cons, List.not_mem_nil, or_false, List.length_cons, List.length_nil]
    omega
  · have h1 := (h 1).1 (by rw [hp]; exact List.mem_cons_self ..)
    simp at h1

end RelDoc
