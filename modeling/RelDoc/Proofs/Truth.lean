import RelDoc.Proofs.Configured
import RelDoc.Proofs.Equivalence
import RelDoc.Proofs.Filling
import RelDoc.Proofs.Planned
import RelDoc.Proofs.Transparency
import RelDoc.Store.Match

/-!
# Filters mean their predicates

`Dialect.holds` is the truth of a predicate on a stored document, with no filter in between: an
expression is read as what is found in its column's field or as its value, the two sides are compared
as they are written, and the connectives are those of logic. Where nothing is found a comparison holds
only if it asks for a difference.

A planned filter with its parameters filled in selects exactly the documents its predicate holds for and
never fails (`Dialect.satisfies_fill`). A comparison with the value in front was turned round, which needs
`Comparison.flip_relates`. Names of fields must not begin with a dollar sign (`Catalog.Plain`), and
documents have distinct names, also those that the codec makes (`Codec.Distinct`).
-/

namespace RelDoc

open Outcome

/-- No field of the catalog is named like an operator. -/
def Catalog.Plain (c : Catalog) : Prop :=
  ∀ table column field, c.fieldOf table column = .ok field → isOperatorName field = false

namespace Catalog

/-- The fields of a mapped table are the primary key and those of its columns. -/
theorem mem_of_fieldOf {mappings : List TableMapping} {table column field : String}
    (h : (ofMappings mappings).fieldOf table column = .ok field) :
    field = idField ∨ ∃ m ∈ mappings, (column, field) ∈ m.columns := by
  obtain ⟨m, hm, h⟩ := bind_eq_ok.1 h
  have hmem : m ∈ mappings := by
    unfold mappingOf at hm
    split at hm
    · next hg =>
      obtain rfl := Except.ok.inj hm
      exact (mem_of_get?_index hg).1
    · simp at hm
  unfold TableMapping.fieldOf at h
  split at h
  · exact .inl (Except.ok.inj h).symm
  · split at h
    · next hg =>
      obtain rfl := Except.ok.inj h
      exact .inr ⟨m, hmem, Dict.mem_of_get?_eq_some hg⟩
    · simp at h

theorem plain_ofMappings {mappings : List TableMapping}
    (h : ∀ m ∈ mappings, ∀ p ∈ m.columns, isOperatorName p.2 = false) : (ofMappings mappings).Plain := by
  intro table column field hf
  rcases mem_of_fieldOf hf with rfl | ⟨m, hm, hp⟩
  · rfl
  · exact h m hm _ hp

end Catalog

/-- The codec writes documents with distinct names. -/
def Codec.Distinct (c : Codec) : Prop := ∀ v w, c.encode v = .ok w → w.Distinct

namespace Codec

theorem distinct_exact : exact.Distinct := by
  intro v w h
  obtain rfl := Except.ok.inj h
  cases v <;> simp [toWire, Value.Distinct]

end Codec

theorem distinct_valuesAt {values : List Value} (h : ∀ v ∈ values, v.Distinct) (n : Nat) :
    (valuesAt values n).Distinct := by
  rw [valuesAt, List.getD_eq_getElem?_getD]
  cases hn : values[n]? with
  | none => simp [Value.Distinct]
  | some v => exact h v (List.mem_of_getElem? hn)

/-! ### The truth of predicates -/

namespace Comparison

/-- Does `v c w` hold for two values? -/
def relates (c : Comparison) (v w : Value) : Bool :=
  match c with
  | equal | notDistinct => v.equals w
  | notEqual | distinct => !v.equals w
  | less => v.compare? w = some .lt
  | lessOrEqual => v.compare? w = some .lt || v.compare? w = some .eq
  | greater => v.compare? w = some .gt
  | greaterOrEqual => v.compare? w = some .gt || v.compare? w = some .eq

/-- Does the comparison hold for what is found on its sides? -/
def holds (c : Comparison) : Option Value → Option Value → Bool
  | some v, some w => c.relates v w
  | _, _ => c = notEqual

theorem flip_relates {v w : Value} (c : Comparison) (hv : v.Distinct) (hw : w.Distinct) :
    c.flip.relates v w = c.relates w v := by
  have he : v.equals w = w.equals v := Value.equals_comm hv hw
  have hs : v.compare? w = (w.compare? v).map Ordering.swap := Value.compare?_swap w v
  cases c with
  | equal | notDistinct => exact he
  | notEqual | distinct => exact congrArg not he
  | _ =>
    simp only [flip, relates, hs]
    rcases w.compare? v with _ | _ | _ | _ <;> rfl

theorem holds_of_toQuery {c : Comparison} {o : QueryOperator} (h : c.toQuery = .ok o) (found : Option Value)
    (w : Value) :
    o.holds found w = c.holds found (some w) := by
  cases c with
  | distinct | notDistinct => simp [toQuery] at h
  | _ =>
    obtain rfl := Except.ok.inj h
    cases found <;> rfl

theorem holds_of_flip_toQuery {c : Comparison} {o : QueryOperator} (h : c.flip.toQuery = .ok o)
    {found : Option Value} {w : Value} (hf : ∀ v ∈ found, v.Distinct) (hw : w.Distinct) :
    o.holds found w = c.holds (some w) found := by
  rw [holds_of_toQuery h]
  cases found with
  | none => cases c <;> rfl
  | some v => exact flip_relates c (hf v rfl) hw

end Comparison

namespace Dialect

variable (d : Dialect) (t : Table) (σ : Nat → Value) (row : Document)

/-- The field of a column of `t`. -/
def field? : Expression → Option String
  | .column c => (d.catalog.fieldOf t.name c.name).toOption
  | _ => none

/-- The value of an expression when the parameters have the values that `σ` gives. -/
def constant? : Expression → Option Value
  | .literal v => (d.codec.encode v).toOption
  | .parameter n => some (σ n)
  | _ => none

/-- What an expression stands for in a row of `t`. -/
def read (e : Expression) : Option Value :=
  match d.field? t e with
  | some field => row.lookup field
  | none => d.constant? σ e

mutual
/-- Does the predicate hold for a row of `t`? Conditions that no filter expresses hold for none. -/
def holds : Predicate → Bool
  | .comparison c left right => c.holds (d.read t σ row left) (d.read t σ row right)
  | .junction .all parts => holdsAll parts
  | .junction .any parts => holdsAny parts
  | .negated p => !holds p
  | .grouped p => holds p
  | .nullness .. | .membership .. | .pattern .. | .between .. => false

def holdsAll : List Predicate → Bool
  | [] => true
  | p :: rest => holds p && holdsAll rest

def holdsAny : List Predicate → Bool
  | [] => false
  | p :: rest => holds p || holdsAny rest
end

/-- Without a restriction every row takes part. -/
def takes : Option Predicate → Bool
  | some p => d.holds t σ row p
  | none => true

end Dialect

/-! ### Documents as rows -/

namespace Value

theorem Distinct.get? {fields : Document} {name : String} {v : Value} (h : (document fields).Distinct)
    (hv : Dict.get? fields name = some v) : v.Distinct := h.field _ (Dict.mem_of_get?_eq_some hv)

theorem Distinct.follow {names : List String} {fields : Document} {v : Value} (h : (document fields).Distinct)
    (hv : Document.follow fields names = some v) : v.Distinct := by
  induction names generalizing fields with
  | nil => simp [Document.follow] at hv
  | cons name rest ih =>
    cases rest with
    | nil => exact h.get? hv
    | cons next more =>
      rw [Document.follow] at hv
      · split at hv
        · next inner hi => exact ih (h.get? hi) hv
        · simp at hv
      · simp

end Value

theorem splitAtDots_eq_self {cs : List Char} (h : '.' ∉ cs) : splitAtDots cs = [cs] := by
  induction cs with
  | nil => rfl
  | cons c rest ih =>
    rw [List.mem_cons, not_or] at h
    rw [splitAtDots, if_neg (Ne.symm h.1), ih h.2]

theorem Document.lookup_of_undotted {name : String} (h : '.' ∉ name.toList) (row : Document) :
    row.lookup name = Dict.get? row name := by
  rw [lookup, pathNames, splitAtDots_eq_self h, List.map_singleton, String.ofList_toList]
  rfl

theorem Combinator.ofToken?_eq_none {name : String} (h : isOperatorName name = false) :
    Combinator.ofToken? name = none := by
  have ne (token : String) (ht : isOperatorName token = true) : name ≠ token := fun he => by simp [he, ht] at h
  rw [ofToken?, if_neg (ne "$and" rfl), if_neg (ne "$or" rfl), if_neg (ne "$nor" rfl)]

namespace Document

variable (row : Document)

theorem satisfies_comparison {path : FieldPath} (h : isOperatorName path.text = false) (o : QueryOperator)
    (v : Value) :
    row.satisfies [(path.text, .document [(o.token, v)])] = .ok (o.holds (row.lookup path.text) v) := by
  have ho : isOperatorName o.token = true := by cases o <;> rfl
  have ht : row.testField path.text (.document [(o.token, v)]) = .ok (o.holds (row.lookup path.text) v) := by
    rw [testField, if_pos ho]
    simp only [testOperators, QueryOperator.ofToken?_token]
    cases o.holds (row.lookup path.text) v <;> rfl
  rw [satisfies, satisfiesEntry, Combinator.ofToken?_eq_none h]
  simp only [h, Bool.false_eq_true, if_false, ht, ok_bind, satisfies]
  cases o.holds (row.lookup path.text) v <;> rfl

theorem satisfies_combination (o : Combinator) (σ : Nat → Value) (fs : List Filter) :
    row.satisfies [(o.token, .array (Filter.fillList σ fs))] =
      match o with
      | .and => row.satisfiesAll (Filter.fillList σ fs)
      | .or => row.satisfiesAny (Filter.fillList σ fs)
      | .nor => return !(← row.satisfiesAny (Filter.fillList σ fs)) := by
  have hd : (Filter.fillList σ fs).all (·.document?.isSome) = true := by
    induction fs with
    | nil => rfl
    | cons f rest ih =>
      rw [Filter.fillList, List.all_cons, ih]
      rfl
  have ht : Combinator.ofToken? o.token = some o := by cases o <;> rfl
  have last (x : Except Error Bool) : (do if (← x) then row.satisfies [] else return false) = x := by
    rcases x with _ | _ | _ <;> simp [satisfies]
  rw [satisfies, satisfiesEntry, ht]
  simp only [hd, if_true]
  exact last _

end Document

/-! ### Filters -/

namespace Dialect

variable {d : Dialect} {t : Table} {σ : Nat → Value} {row : Document}

namespace Plans

theorem field?_eq {e : Expression} {path : FieldPath} (h : d.Plans t e (.field path)) :
    d.field? t e = some path.text := by
  cases h with
  | column hf =>
    rw [field?, hf]
    rfl

theorem constant?_eq {e : Expression} {term : Term} (h : d.Plans t e (.value term)) :
    d.constant? σ e = some (term.fill σ) := by
  cases h with
  | literal hw _ =>
    rw [constant?, hw, Term.fill]
    rfl
  | parameter n => rw [constant?, Term.fill]

theorem read_field {e : Expression} {path : FieldPath} (h : d.Plans t e (.field path)) :
    d.read t σ row e = row.lookup path.text := by
  rw [read, h.field?_eq]

theorem read_value {e : Expression} {term : Term} (h : d.Plans t e (.value term)) :
    d.read t σ row e = some (term.fill σ) := by
  rw [read, ← h.constant?_eq]
  cases h <;> rfl

theorem not_isOperatorName (hp : d.catalog.Plain) {e : Expression} {path : FieldPath}
    (h : d.Plans t e (.field path)) : isOperatorName path.text = false := by
  cases h with
  | column hf => exact hp _ _ _ hf

theorem distinct (hc : d.codec.Distinct) (hσ : ∀ n, (σ n).Distinct) {e : Expression} {term : Term}
    (h : d.Plans t e (.value term)) : (term.fill σ).Distinct := by
  cases h with
  | literal hw _ =>
    rw [Term.fill]
    exact hc _ _ hw
  | parameter n =>
    rw [Term.fill]
    exact hσ n

end Plans

theorem satisfies_comparison (hp : d.catalog.Plain) (hc : d.codec.Distinct) (hσ : ∀ n, (σ n).Distinct)
    (hrow : (Value.document row).Distinct) {c : Comparison} {left right : Expression} {f : Filter}
    (h : Direct.comparison d (some t) c left right = .ok f) :
    row.satisfies (f.fill σ) = .ok (c.holds (d.read t σ row left) (d.read t σ row right)) := by
  obtain ⟨path, o, term, rfl, ⟨ho, hf, hv⟩ | ⟨ho, hv, hf⟩⟩ := Direct.comparison_eq_ok h
  · rw [Filter.fill, row.satisfies_comparison (hf.not_isOperatorName hp), hf.read_field, hv.read_value,
      Comparison.holds_of_toQuery ho]
  · have hfound : ∀ v ∈ row.lookup path.text, v.Distinct := fun v hv => hrow.follow hv
    rw [Filter.fill, row.satisfies_comparison (hf.not_isOperatorName hp), hf.read_field, hv.read_value,
      Comparison.holds_of_flip_toQuery ho hfound (hv.distinct hc hσ)]

mutual
/-- A planned filter never fails, and it selects the documents that its predicate holds for. -/
theorem satisfies_fill (hp : d.catalog.Plain) (hc : d.codec.Distinct) (hσ : ∀ n, (σ n).Distinct)
    (hrow : (Value.document row).Distinct) : ∀ {p : Predicate} {f : Filter}, Direct.filter d (some t) p = .ok f →
    row.satisfies (f.fill σ) = .ok (d.holds t σ row p)
  | .comparison c left right, f, h => by
    rw [Direct.filter] at h
    rw [holds]
    exact satisfies_comparison hp hc hσ hrow h
  | .junction kind parts, f, h => by
    rw [Direct.filter] at h
    obtain ⟨fs, hfs, h⟩ := bind_eq_ok.1 h
    obtain ⟨-, rfl⟩ := Filter.combine_eq_ok h
    obtain ⟨hall, hany⟩ := satisfies_fillList hp hc hσ hrow hfs
    rw [Filter.fill, row.satisfies_combination]
    cases kind with
    | all =>
      rw [holds]
      exact hall
    | any =>
      rw [holds]
      exact hany
  | .negated p, f, h => by
    rw [Direct.filter] at h
    obtain ⟨inner, hi, h⟩ := bind_eq_ok.1 h
    obtain ⟨-, rfl⟩ := Filter.combine_eq_ok h
    have ih := satisfies_fill hp hc hσ hrow hi
    rw [Filter.fill, row.satisfies_combination, holds]
    simp only [Filter.fillList, Document.satisfiesAny, ih, ok_bind]
    cases d.holds t σ row p <;> rfl
  | .grouped p, f, h => by
    rw [Direct.filter] at h
    rw [holds]
    exact satisfies_fill hp hc hσ hrow h
  | .nullness .., f, h | .membership .., f, h | .pattern .., f, h | .between .., f, h => by
    simp [Direct.filter] at h

theorem satisfies_fillList (hp : d.catalog.Plain) (hc : d.codec.Distinct) (hσ : ∀ n, (σ n).Distinct)
    (hrow : (Value.document row).Distinct) :
    ∀ {ps : List Predicate} {fs : List Filter}, Direct.filters d (some t) ps = .ok fs →
    row.satisfiesAll (Filter.fillList σ fs) = .ok (d.holdsAll t σ row ps) ∧
      row.satisfiesAny (Filter.fillList σ fs) = .ok (d.holdsAny t σ row ps)
  | [], fs, h => by
    rw [Direct.filters] at h
    obtain rfl := Except.ok.inj h
    exact ⟨rfl, rfl⟩
  | p :: rest, fs, h => by
    rw [Direct.filters] at h
    obtain ⟨f, hf, h⟩ := bind_eq_ok.1 h
    obtain ⟨more, hm, h⟩ := bind_eq_ok.1 h
    obtain rfl := Except.ok.inj h
    have ih := satisfies_fill hp hc hσ hrow hf
    obtain ⟨hall, hany⟩ := satisfies_fillList hp hc hσ hrow hm
    simp only [Filter.fillList, Document.satisfiesAll, Document.satisfiesAny, ih, hall, hany, ok_bind, holdsAll,
      holdsAny]
    cases d.holds t σ row p <;> exact ⟨rfl, rfl⟩
end

theorem satisfies_restriction (hp : d.catalog.Plain) (hc : d.codec.Distinct) (hσ : ∀ n, (σ n).Distinct)
    (hrow : (Value.document row).Distinct) {r : Option Predicate} {f : Filter}
    (h : Direct.restriction d (some t) r = .ok f) : row.satisfies (f.fill σ) = .ok (d.takes t σ row r) := by
  cases r with
  | none =>
    obtain rfl := Except.ok.inj h
    rw [Filter.fill, Document.satisfies]
    rfl
  | some p => exact satisfies_fill hp hc hσ hrow h

theorem run_filterOf {pass : Pass} (hs : pass.scope = some t) (p : Predicate) :
    (d.filterOf p).run.run pass = (Direct.filter d (some t) p, pass) := d.gives_filterOf p pass hs rfl

/-- The filter that a pass over a statement on `t` makes of a predicate, with values for all parameters of
the predicate: it can be bound, and then it selects the documents that the predicate holds for and fails for
none. -/
theorem filterOf_means (hp : d.catalog.Plain) (hc : d.codec.Distinct) {pass after : Pass} {p : Predicate}
    {f : Filter} (hs : pass.scope = some t) (h : (d.filterOf p).run.run pass = (.ok f, after)) {values : List Value}
    (hv : ∀ v ∈ values, v.Distinct) (hn : ∀ n ∈ p.parameters, n < values.length) :
    ∃ query, f.bind values = .ok query ∧ ∀ row : Document, (Value.document row).Distinct →
      row.satisfies query = .ok (d.holds t (valuesAt values) row p) := by
  have hd : Direct.filter d (some t) p = .ok f := congrArg Prod.fst ((run_filterOf hs p).symm.trans h)
  have hpos : ∀ n ∈ f.positions, n < values.length := by
    rw [Direct.positions_filter hd]
    exact hn
  refine ⟨_, Filter.bind_eq_ok (Direct.wellFormed_filter hd) hpos, fun row hrow => ?_⟩
  exact satisfies_fill hp hc (distinct_valuesAt hv) hrow hd

/-- People under their identifiers, with names and ages. -/
def people : Dialect where
  catalog := .ofMappings
    [{ table := "people", collection := "persons", idColumn := some "id",
       columns := [("age", "years"), ("name", "name")] }]
  codec := .exact

theorem plain_people : people.catalog.Plain := by
  refine Catalog.plain_ofMappings fun m hm p hp => ?_
  obtain rfl := List.mem_singleton.1 hm
  simp only [List.mem_cons, List.not_mem_nil, or_false] at hp
  rcases hp with rfl | rfl <;> rfl

/-- `NOT (18 > age OR id = ?)` -/
def adults : Predicate :=
  .negated (.grouped (.junction .any
    [.comparison .greater (.literal (.int32 18)) (.column ⟨none, "age"⟩),
      .comparison .equal (.column ⟨none, "id"⟩) (.parameter 0)]))

theorem filterOf_means_adults : ∃ f after query,
    (people.filterOf adults).run.run { scope := some ⟨"people", none⟩ } = (.ok f, after) ∧
      f.bind [.int32 7] = .ok query ∧
      Document.satisfies [("_id", .int64 8), ("years", .int64 18)] query = .ok true ∧
      Document.satisfies [("_id", .int64 7), ("years", .int64 18)] query = .ok false := by
  have hd : Direct.filter people (some ⟨"people", none⟩) adults = .ok (.combination .nor [.combination .or
      [.comparison ⟨"years"⟩ .lt (.literal (.int32 18)), .comparison ⟨"_id"⟩ .eq (.placeholder 0)]]) := rfl
  let pass : Pass := { scope := some ⟨"people", none⟩ }
  have hs : pass.scope = some ⟨"people", none⟩ := rfl
  have h := run_filterOf (d := people) hs adults
  rw [hd] at h
  have hv : ∀ v ∈ [Value.int32 7], v.Distinct := by simp [Value.Distinct]
  have hn : ∀ n ∈ adults.parameters, n < [Value.int32 7].length := by decide
  obtain ⟨query, hq, hm⟩ := filterOf_means plain_people Codec.distinct_exact hs h hv hn
  refine ⟨_, _, query, h, hq, ?_, ?_⟩
  · rw [hm _ (by simp [Value.Distinct, Value.DistinctFields])]
    exact congrArg Except.ok (by decide +kernel)
  · rw [hm _ (by simp [Value.Distinct, Value.DistinctFields])]
    exact congrArg Except.ok (by decide +kernel)

end Dialect
end RelDoc
