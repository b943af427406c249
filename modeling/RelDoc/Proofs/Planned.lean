import RelDoc.Plan.Direct
import RelDoc.Proofs.Outcome

/-!
# What planning builds

The plan of a node that has one, taken apart. An expression is planned as a column, as a literal that
the codec writes as a scalar, or as a parameter (`Dialect.Plans`); a comparison has one of either side
(`Direct.comparison_eq_ok`). The parameters of a filter are those of its predicate, in order of writing
(`Direct.positions_filter`), and a planned command keeps what the constructors of its parts guarantee
(`Direct.wellFormed_command`).
-/

namespace RelDoc

open Outcome

/-! ### Parameters -/

namespace Expression

mutual
/-- The parameters of an expression, in order of writing. -/
def parameters : Expression → List Nat
  | column _ | literal _ | null => []
  | parameter n => [n]
  | function _ arguments => listParameters arguments
  | arithmetic _ left right => parameters left ++ parameters right

def listParameters : List Expression → List Nat
  | [] => []
  | e :: rest => parameters e ++ listParameters rest
end

end Expression

namespace Predicate

mutual
/-- The parameters of a predicate, in order of writing. -/
def parameters : Predicate → List Nat
  | comparison _ left right => left.parameters ++ right.parameters
  | junction _ parts => listParameters parts
  | negated p => parameters p
  | grouped p => parameters p
  | nullness e _ => e.parameters
  | membership e list _ => e.parameters ++ Expression.listParameters list
  | pattern e like _ => e.parameters ++ like.parameters
  | between e lower upper _ => e.parameters ++ lower.parameters ++ upper.parameters

def listParameters : List Predicate → List Nat
  | [] => []
  | p :: rest => parameters p ++ listParameters rest
end

end Predicate

/-! ### Checked constructors -/

theorem Term.ofValue_eq_ok {v : Value} {t : Term} (h : Term.ofValue v = .ok t) :
    v.isScalar = true ∧ t = .literal v := by
  unfold Term.ofValue at h
  split at h
  · simp at h
  · simp at h
  · simp at h
  · simp at h
  · obtain rfl := Except.ok.inj h
    refine ⟨?_, rfl⟩
    cases v <;> first | rfl | simp_all

theorem Template.ofFields_eq_ok {fields : List (String × Term)} {d : Template}
    (h : Template.ofFields fields = .ok d) :
    (fields.map Prod.fst).Nodup ∧ d = fields := by
  unfold Template.ofFields at h
  split at h
  · simp at h
  · next hn => exact ⟨(firstRepeated_eq_none.1 hn).1, (Except.ok.inj h).symm⟩

theorem Filter.combine_eq_ok {operator : Combinator} {parts : List Filter} {f : Filter}
    (h : Filter.combine operator parts = .ok f) : parts ≠ [] ∧ f = .combination operator parts := by
  unfold Filter.combine at h
  split at h
  · simp at h
  · next hn => exact ⟨fun he => hn (by rw [he]; rfl), (Except.ok.inj h).symm⟩

/-! ### Expressions -/

namespace Dialect

variable {d : Dialect} {t : Table}

/-- How an expression within a statement on `t` may be planned. -/
inductive Plans (d : Dialect) (t : Table) : Expression → Operand → Prop where
  | column {c : Column} {field : String} (h : d.catalog.fieldOf t.name c.name = .ok field) :
    Plans d t (.column c) (.field ⟨field⟩)
  | literal {v : Scalar} {w : Value} (h : d.codec.encode v = .ok w) (hs : w.isScalar = true) :
    Plans d t (.literal v) (.value (.literal w))
  | parameter (n : Nat) : Plans d t (.parameter n) (.value (.placeholder n))

theorem columnOperand_eq_ok {c : Column} {o : Operand} (h : d.columnOperand (some t) c = .ok o) :
    ∃ field, d.catalog.fieldOf t.name c.name = .ok field ∧ o = .field ⟨field⟩ := by
  have read (h : (do return .field ⟨← d.catalog.fieldOf t.name c.name⟩ : Except Error Operand) = .ok o) :
      ∃ field, d.catalog.fieldOf t.name c.name = .ok field ∧ o = .field ⟨field⟩ := by
    obtain ⟨field, hf, ho⟩ := bind_eq_ok.1 h
    exact ⟨field, hf, (Except.ok.inj ho).symm⟩
  unfold columnOperand at h
  cases hq : c.qualifier with
  | none =>
    simp only [hq] at h
    exact read h
  | some q =>
    simp only [hq] at h
    split at h
    · exact read h
    · simp at h

theorem operand_eq_ok {e : Expression} {o : Operand} (h : d.operand (some t) e = .ok o) : d.Plans t e o := by
  cases e with
  | column c =>
    obtain ⟨field, hf, rfl⟩ := columnOperand_eq_ok h
    exact .column hf
  | literal v =>
    obtain ⟨w, hw, h⟩ := bind_eq_ok.1 h
    obtain ⟨term, ht, h⟩ := bind_eq_ok.1 h
    obtain ⟨hs, rfl⟩ := Term.ofValue_eq_ok ht
    obtain rfl := Except.ok.inj h
    exact .literal hw hs
  | parameter n =>
    obtain rfl := Except.ok.inj h
    exact .parameter n
  | _ => simp [operand] at h

namespace Plans

theorem wellFormed {e : Expression} {term : Term} (h : d.Plans t e (.value term)) : term.WellFormed := by
  cases h with
  | literal _ hs =>
    rw [Term.WellFormed]
    exact hs
  | parameter n =>
    rw [Term.WellFormed]
    trivial

theorem positions {e : Expression} {term : Term} (h : d.Plans t e (.value term)) :
    term.positions = e.parameters := by
  cases h <;> simp [Term.positions, Expression.parameters]

theorem parameters {e : Expression} {path : FieldPath} (h : d.Plans t e (.field path)) : e.parameters = [] := by
  cases h
  rw [Expression.parameters]

end Plans
end Dialect

namespace Direct

variable {d : Dialect} {t : Table}

theorem valueOf_eq_ok {place : ValuePlace} {e : Expression} {term : Term}
    (h : valueOf d (some t) place e = .ok term) : d.Plans t e (.value term) := by
  obtain ⟨o, ho, h⟩ := bind_eq_ok.1 h
  cases o with
  | field path => simp [Operand.toValue] at h
  | value t' =>
    obtain rfl := Except.ok.inj h
    exact Dialect.operand_eq_ok ho

theorem columnFieldOf_eq_ok {place : ColumnPlace} {e : Expression} {path : FieldPath}
    (h : columnFieldOf d (some t) place e = .ok path) : d.Plans t e (.field path) := by
  obtain ⟨o, ho, h⟩ := bind_eq_ok.1 h
  cases o with
  | value t' => simp [Operand.toField] at h
  | field path' =>
    obtain rfl := Except.ok.inj h
    exact Dialect.operand_eq_ok ho

theorem fieldOf_eq_ok {c : Column} {path : FieldPath} (h : fieldOf d (some t) c = .ok path) :
    d.catalog.fieldOf t.name c.name = .ok path.text := by
  obtain ⟨o, ho, h⟩ := bind_eq_ok.1 h
  obtain ⟨field, hf, rfl⟩ := Dialect.columnOperand_eq_ok ho
  obtain rfl := Except.ok.inj h
  exact hf

/-! ### Predicates -/

/-- A planned comparison has a column on one side and a value on the other; with the value in front it
is turned round. -/
theorem comparison_eq_ok {c : Comparison} {left right : Expression} {f : Filter}
    (h : comparison d (some t) c left right = .ok f) : ∃ path operator term, f = .comparison path operator term ∧
      ((c.toQuery = .ok operator ∧ d.Plans t left (.field path) ∧ d.Plans t right (.value term)) ∨
        (c.flip.toQuery = .ok operator ∧ d.Plans t left (.value term) ∧ d.Plans t right (.field path))) := by
  obtain ⟨operator, hc, h⟩ := bind_eq_ok.1 h
  obtain ⟨l, hl, h⟩ := bind_eq_ok.1 h
  obtain ⟨r, hr, h⟩ := bind_eq_ok.1 h
  have hl := Dialect.operand_eq_ok hl
  have hr := Dialect.operand_eq_ok hr
  unfold comparisonFilter at h
  split at h
  · obtain rfl := Except.ok.inj h
    exact ⟨_, _, _, rfl, .inl ⟨hc, hl, hr⟩⟩
  · obtain ⟨flipped, hf, h⟩ := bind_eq_ok.1 h
    obtain rfl := Except.ok.inj h
    exact ⟨_, _, _, rfl, .inr ⟨hf, hl, hr⟩⟩
  · simp at h
  · simp at h

mutual
theorem wellFormed_filter : ∀ {p : Predicate} {f : Filter}, filter d (some t) p = .ok f → f.WellFormed
  | .comparison c left right, f, h => by
    rw [filter] at h
    obtain ⟨path, operator, term, rfl, ⟨-, -, hv⟩ | ⟨-, hv, -⟩⟩ := comparison_eq_ok h <;>
      · rw [Filter.WellFormed]
        exact hv.wellFormed
  | .junction kind parts, f, h => by
    rw [filter] at h
    obtain ⟨fs, hfs, h⟩ := bind_eq_ok.1 h
    obtain ⟨hn, rfl⟩ := Filter.combine_eq_ok h
    rw [Filter.WellFormed]
    exact ⟨hn, wellFormed_filters hfs⟩
  | .negated p, f, h => by
    rw [filter] at h
    obtain ⟨inner, hi, h⟩ := bind_eq_ok.1 h
    obtain ⟨hn, rfl⟩ := Filter.combine_eq_ok h
    rw [Filter.WellFormed, Filter.AllWellFormed, Filter.AllWellFormed]
    exact ⟨hn, wellFormed_filter hi, trivial⟩
  | .grouped p, f, h => by
    rw [filter] at h
    exact wellFormed_filter h
  | .nullness .., f, h | .membership .., f, h | .pattern .., f, h | .between .., f, h => by simp [filter] at h

theorem wellFormed_filters : ∀ {ps : List Predicate} {fs : List Filter}, filters d (some t) ps = .ok fs →
    Filter.AllWellFormed fs
  | [], fs, h => by
    rw [filters] at h
    obtain rfl := Except.ok.inj h
    rw [Filter.AllWellFormed]
    trivial
  | p :: rest, fs, h => by
    rw [filters] at h
    obtain ⟨f, hf, h⟩ := bind_eq_ok.1 h
    obtain ⟨more, hm, h⟩ := bind_eq_ok.1 h
    obtain rfl := Except.ok.inj h
    rw [Filter.AllWellFormed]
    exact ⟨wellFormed_filter hf, wellFormed_filters hm⟩
end

mutual
theorem positions_filter : ∀ {p : Predicate} {f : Filter}, filter d (some t) p = .ok f → f.positions = p.parameters
  | .comparison c left right, f, h => by
    rw [filter] at h
    obtain ⟨path, operator, term, rfl, ⟨-, hf, hv⟩ | ⟨-, hv, hf⟩⟩ := comparison_eq_ok h <;>
      simp [Filter.positions, Predicate.parameters, hv.positions, hf.parameters]
  | .junction kind parts, f, h => by
    rw [filter] at h
    obtain ⟨fs, hfs, h⟩ := bind_eq_ok.1 h
    obtain ⟨-, rfl⟩ := Filter.combine_eq_ok h
    rw [Filter.positions, Predicate.parameters]
    exact positions_filters hfs
  | .negated p, f, h => by
    rw [filter] at h
    obtain ⟨inner, hi, h⟩ := bind_eq_ok.1 h
    obtain ⟨-, rfl⟩ := Filter.combine_eq_ok h
    rw [Filter.positions, Filter.listPositions, Filter.listPositions, List.append_nil, Predicate.parameters]
    exact positions_filter hi
  | .grouped p, f, h => by
    rw [filter] at h
    rw [Predicate.parameters]
    exact positions_filter h
  | .nullness .., f, h | .membership .., f, h | .pattern .., f, h | .between .., f, h => by simp [filter] at h

theorem positions_filters : ∀ {ps : List Predicate} {fs : List Filter}, filters d (some t) ps = .ok fs →
    Filter.listPositions fs = Predicate.listParameters ps
  | [], fs, h => by
    rw [filters] at h
    obtain rfl := Except.ok.inj h
    rw [Filter.listPositions, Predicate.listParameters]
  | p :: rest, fs, h => by
    rw [filters] at h
    obtain ⟨f, hf, h⟩ := bind_eq_ok.1 h
    obtain ⟨more, hm, h⟩ := bind_eq_ok.1 h
    obtain rfl := Except.ok.inj h
    rw [Filter.listPositions, Predicate.listParameters, positions_filter hf, positions_filters hm]
end

theorem wellFormed_restriction {r : Option Predicate} {f : Filter} (h : restriction d (some t) r = .ok f) :
    f.WellFormed := by
  cases r with
  | none =>
    obtain rfl := Except.ok.inj h
    rw [Filter.WellFormed]
    trivial
  | some p => exact wellFormed_filter h

/-! ### Clauses -/

theorem update_eq_ok {a : Assignment} {u : FieldUpdate} (h : update d (some t) a = .ok u) :
    d.catalog.fieldOf t.name a.column.name = .ok u.field.text ∧ u.field.isId = false ∧
      d.Plans t a.value (.value u.value) := by
  obtain ⟨field, hf, h⟩ := bind_eq_ok.1 h
  obtain ⟨identifier, -, h⟩ := bind_eq_ok.1 h
  split at h
  · simp at h
  · next hn =>
    obtain ⟨value, hv, h⟩ := bind_eq_ok.1 h
    obtain rfl := Except.ok.inj h
    rw [Bool.or_eq_true, not_or, Bool.not_eq_true, Bool.not_eq_true] at hn
    exact ⟨fieldOf_eq_ok hf, hn.2, valueOf_eq_ok hv⟩

theorem projection_eq_ok {s : Selection} {p : Projection} (h : projection d (some t) s = .ok p) :
    p.included = true ∧ d.Plans t s.expression (.field p.field) := by
  obtain ⟨field, hf, h⟩ := bind_eq_ok.1 h
  obtain rfl := Except.ok.inj h
  exact ⟨rfl, columnFieldOf_eq_ok hf⟩

theorem sortKey_eq_ok {s : SortItem} {k : SortKey} (h : sortKey d (some t) s = .ok k) :
    k.direction = s.direction ∧ d.Plans t s.expression (.field k.field) := by
  obtain ⟨field, hf, h⟩ := bind_eq_ok.1 h
  obtain rfl := Except.ok.inj h
  exact ⟨rfl, columnFieldOf_eq_ok hf⟩

theorem countStage_eq_ok {kind : CountStage} {clause : Option Expression} {stages : List Stage}
    (h : countStage d (some t) kind clause = .ok stages) : (clause = none ∧ stages = []) ∨
      ∃ e term, clause = some e ∧ d.Plans t e (.value term) ∧ checkCount kind term = .ok () ∧
        stages = [kind.stage term] := by
  cases clause with
  | none => exact .inl ⟨rfl, (Except.ok.inj h).symm⟩
  | some e =>
    obtain ⟨term, ht, h⟩ := bind_eq_ok.1 h
    obtain ⟨stage, hs, h⟩ := bind_eq_ok.1 h
    obtain ⟨_, hc, hs⟩ := bind_eq_ok.1 hs
    obtain rfl := Except.ok.inj hs
    exact .inr ⟨e, term, rfl, valueOf_eq_ok ht, hc, (Except.ok.inj h).symm⟩

theorem projectStage_eq_ok {fields : List Projection} {stages : List Stage}
    (h : projectStage fields = .ok stages) :
    (fields = [] ∧ stages = []) ∨
      (fields ≠ [] ∧ checkFields .project (fields.map Projection.field) = .ok () ∧ stages = [.project fields]) := by
  unfold projectStage at h
  split at h
  · next he => exact .inl ⟨List.isEmpty_iff.1 he, (Except.ok.inj h).symm⟩
  · next he =>
    obtain ⟨stage, hs, h⟩ := bind_eq_ok.1 h
    obtain ⟨_, hc, hs⟩ := bind_eq_ok.1 hs
    obtain rfl := Except.ok.inj hs
    exact .inr ⟨fun hn => he (by rw [hn]; rfl), hc, (Except.ok.inj h).symm⟩

theorem sortStage_eq_ok {keys : List SortKey} {stages : List Stage} (h : sortStage keys = .ok stages) :
    (keys = [] ∧ stages = []) ∨
      (checkFields .sort (keys.map SortKey.field) = .ok () ∧ stages = [.sort keys]) := by
  unfold sortStage at h
  split at h
  · next he => exact .inl ⟨List.isEmpty_iff.1 he, (Except.ok.inj h).symm⟩
  · obtain ⟨stage, hs, h⟩ := bind_eq_ok.1 h
    obtain ⟨_, hc, hs⟩ := bind_eq_ok.1 hs
    obtain rfl := Except.ok.inj hs
    exact .inr ⟨hc, (Except.ok.inj h).symm⟩

theorem filterStage_eq_ok {r : Option Predicate} {stages : List Stage}
    (h : filterStage d (some t) r = .ok stages) :
    (r = none ∧ stages = []) ∨ ∃ p f, r = some p ∧ filter d (some t) p = .ok f ∧ stages = [.filter f] := by
  cases r with
  | none => exact .inl ⟨rfl, (Except.ok.inj h).symm⟩
  | some p =>
    obtain ⟨f, hf, h⟩ := bind_eq_ok.1 h
    exact .inr ⟨p, f, rfl, hf, (Except.ok.inj h).symm⟩

/-! ### Statements -/

/-- The parts that the pipeline of a SELECT is put together from. -/
structure SelectParts (d : Dialect) (s : Select) where
  collection : String
  filter : List Stage
  selected : List Projection
  keys : List SortKey
  project : List Stage
  sort : List Stage
  skip : List Stage
  limit : List Stage
  collection_eq : d.catalog.collectionOf s.table.name = .ok collection
  filter_eq : filterStage d (some s.table) s.restriction = .ok filter
  selected_eq : projections d (some s.table) [] s.selections = .ok selected
  keys_eq : sortKeys d (some s.table) (completeProjection selected) [] s.orderBy = .ok keys
  project_eq : projectStage (completeProjection selected) = .ok project
  sort_eq : sortStage keys = .ok sort
  skip_eq : countStage d (some s.table) .skip s.offset = .ok skip
  limit_eq : countStage d (some s.table) .limit s.fetch = .ok limit

/-- The command that the parts make. -/
def SelectParts.command {s : Select} (p : SelectParts d s) : Command :=
  .aggregate p.collection (p.filter ++ p.project ++ p.sort ++ p.skip ++ p.limit)

theorem select_eq_ok {s : Select} {c : Command} (h : select d s = .ok c) :
    ∃ p : SelectParts d s, c = p.command := by
  unfold select at h
  split at h
  · simp at h
  · obtain ⟨_, -, h⟩ := bind_eq_ok.1 h
    obtain ⟨collection, hc, h⟩ := bind_eq_ok.1 h
    obtain ⟨f, hf, h⟩ := bind_eq_ok.1 h
    obtain ⟨selected, hs, h⟩ := bind_eq_ok.1 h
    obtain ⟨keys, hk, h⟩ := bind_eq_ok.1 h
    obtain ⟨project, hp, h⟩ := bind_eq_ok.1 h
    obtain ⟨sort, ho, h⟩ := bind_eq_ok.1 h
    obtain ⟨skip, hsk, h⟩ := bind_eq_ok.1 h
    obtain ⟨limit, hl, h⟩ := bind_eq_ok.1 h
    exact ⟨⟨collection, f, selected, keys, project, sort, skip, limit, hc, hf, hs, hk, hp, ho, hsk, hl⟩,
      (Except.ok.inj h).symm⟩

theorem updateCommand_eq_ok {s : Update} {c : Command} (h : updateCommand d s = .ok c) :
    ∃ collection f us, d.catalog.collectionOf s.table.name = .ok collection ∧
      restriction d (some s.table) s.restriction = .ok f ∧
      List.Forall₂ (fun a u => update d (some s.table) a = .ok u) s.assignments us ∧
      checkFields .set (us.map FieldUpdate.field) = .ok () ∧ c = .update collection f us := by
  obtain ⟨collection, hc, h⟩ := bind_eq_ok.1 h
  obtain ⟨f, hf, h⟩ := bind_eq_ok.1 h
  obtain ⟨us, hu, h⟩ := bind_eq_ok.1 h
  obtain ⟨_, -, h⟩ := bind_eq_ok.1 h
  obtain ⟨_, hk, h⟩ := bind_eq_ok.1 h
  exact ⟨collection, f, us, hc, hf, mapM_eq_ok.1 hu, hk, (Except.ok.inj h).symm⟩

theorem delete_eq_ok {s : Delete} {c : Command} (h : delete d s = .ok c) :
    ∃ collection f, d.catalog.collectionOf s.table.name = .ok collection ∧
      restriction d (some s.table) s.restriction = .ok f ∧ c = .delete collection f := by
  obtain ⟨collection, hc, h⟩ := bind_eq_ok.1 h
  obtain ⟨f, hf, h⟩ := bind_eq_ok.1 h
  exact ⟨collection, f, hc, hf, (Except.ok.inj h).symm⟩

/-- A row has a term for each of its values, under the field of the value's place. -/
theorem row_eq_ok {fields : List FieldPath} {es : List Expression} {named : List (String × Term)}
    (h : row d (some t) fields es = .ok named) (hl : es.length = fields.length) :
    ∃ terms, List.Forall₂ (fun e term => d.Plans t e (.value term)) es terms ∧
      named = (fields.map FieldPath.text).zip terms := by
  induction fields generalizing es named with
  | nil =>
    obtain rfl := List.length_eq_zero_iff.1 hl
    exact ⟨[], .nil, (Except.ok.inj h).symm⟩
  | cons field rest ih =>
    cases es with
    | nil => simp at hl
    | cons e es =>
      obtain ⟨term, ht, h⟩ := bind_eq_ok.1 h
      obtain ⟨more, hm, h⟩ := bind_eq_ok.1 h
      obtain rfl := Except.ok.inj h
      obtain ⟨terms, hterms, rfl⟩ := ih hm (Nat.succ.inj hl)
      exact ⟨term :: terms, .cons (valueOf_eq_ok ht) hterms, rfl⟩

theorem document_eq_ok {fields : List FieldPath} {es : List Expression} {doc : Template}
    (h : document d (some t) fields es = .ok doc) :
    es.length = fields.length ∧ row d (some t) fields es = .ok doc ∧ (doc.map Prod.fst).Nodup := by
  unfold document at h
  split at h
  · simp at h
  · next hl =>
    obtain ⟨named, hn, h⟩ := bind_eq_ok.1 h
    obtain ⟨hd, rfl⟩ := Template.ofFields_eq_ok h
    exact ⟨not_not.1 hl, hn, hd⟩

theorem insert_eq_ok {s : Insert} {c : Command} (h : insert d s = .ok c) :
    ∃ rows collection fields documents, s.source = .rows rows ∧
      d.catalog.collectionOf s.table.name = .ok collection ∧
      List.Forall₂ (fun column field => fieldOf d (some s.table) column = .ok field) s.columns fields ∧
      List.Forall₂ (fun es doc => document d (some s.table) fields es = .ok doc) rows documents ∧
      documents ≠ [] ∧ c = .insert collection documents := by
  unfold insert at h
  split at h
  · simp at h
  · next rows hsource =>
    obtain ⟨collection, hc, h⟩ := bind_eq_ok.1 h
    obtain ⟨fields, hf, h⟩ := bind_eq_ok.1 h
    obtain ⟨documents, hd, h⟩ := bind_eq_ok.1 h
    unfold Command.ofDocuments at h
    split at h
    · simp at h
    · next hne =>
      exact ⟨rows, collection, fields, documents, hsource, hc, mapM_eq_ok.1 hf, mapM_eq_ok.1 hd,
        fun he => hne (by rw [he]; rfl), (Except.ok.inj h).symm⟩

/-! ### Guarantees -/

theorem wellFormed_row {fields : List FieldPath} {es : List Expression} {named : List (String × Term)}
    (h : row d (some t) fields es = .ok named) : Term.WellFormedFields named := by
  induction fields generalizing es named with
  | nil =>
    obtain rfl := Except.ok.inj h
    rw [Term.WellFormedFields]
    trivial
  | cons field rest ih =>
    cases es with
    | nil =>
      obtain rfl := Except.ok.inj h
      rw [Term.WellFormedFields]
      trivial
    | cons e es =>
      obtain ⟨term, ht, h⟩ := bind_eq_ok.1 h
      obtain ⟨more, hm, h⟩ := bind_eq_ok.1 h
      obtain rfl := Except.ok.inj h
      rw [Term.WellFormedFields]
      exact ⟨(valueOf_eq_ok ht).wellFormed, ih hm⟩

theorem wellFormed_document {fields : List FieldPath} {es : List Expression} {doc : Template}
    (h : document d (some t) fields es = .ok doc) : (Term.template doc).WellFormed := by
  obtain ⟨-, hn, hd⟩ := document_eq_ok h
  rw [Term.WellFormed]
  exact ⟨hd, wellFormed_row hn⟩

theorem wellFormed_insert {s : Insert} {c : Command} (h : insert d s = .ok c) : c.WellFormed := by
  obtain ⟨rows, collection, fields, documents, -, -, -, hd, hne, rfl⟩ := insert_eq_ok h
  refine ⟨hne, fun doc hm => ?_⟩
  obtain ⟨es, -, hes⟩ := forall₂_mem_right hd hm
  exact wellFormed_document hes

theorem wellFormed_countStage {kind : CountStage} {clause : Option Expression} {stages : List Stage}
    (h : countStage d (some t) kind clause = .ok stages) : ∀ stage ∈ stages, stage.WellFormed := by
  obtain ⟨-, rfl⟩ | ⟨e, term, -, ht, hc, rfl⟩ := countStage_eq_ok h
  · simp
  · intro stage hm
    obtain rfl := List.mem_singleton.1 hm
    exact (kind.wellFormed_stage term).2 ⟨hc, ht.wellFormed⟩

theorem SelectParts.wellFormed {s : Select} (p : SelectParts d s) : p.command.WellFormed := by
  intro stage hm
  simp only [List.mem_append] at hm
  obtain (((hm | hm) | hm) | hm) | hm := hm
  · obtain ⟨-, he⟩ | ⟨q, f, -, hf, he⟩ := filterStage_eq_ok p.filter_eq
    · simp [he] at hm
    · obtain rfl := List.mem_singleton.1 (he ▸ hm)
      exact wellFormed_filter hf
  · obtain ⟨-, he⟩ | ⟨-, hc, he⟩ := projectStage_eq_ok p.project_eq
    · simp [he] at hm
    · obtain rfl := List.mem_singleton.1 (he ▸ hm)
      exact hc
  · obtain ⟨-, he⟩ | ⟨hc, he⟩ := sortStage_eq_ok p.sort_eq
    · simp [he] at hm
    · obtain rfl := List.mem_singleton.1 (he ▸ hm)
      exact hc
  · exact wellFormed_countStage p.skip_eq stage hm
  · exact wellFormed_countStage p.limit_eq stage hm

/-- A planned command keeps what the constructors of its parts guarantee. -/
theorem wellFormed_command {s : Statement} {c : Command} (h : command d s = .ok c) : c.WellFormed := by
  cases s with
  | insert s => exact wellFormed_insert h
  | update s =>
    obtain ⟨collection, f, us, -, hf, hu, hc, rfl⟩ := updateCommand_eq_ok h
    refine ⟨wellFormed_restriction hf, hc, fun u hm => ?_⟩
    obtain ⟨a, -, ha⟩ := forall₂_mem_right hu hm
    exact (update_eq_ok ha).2.2.wellFormed
  | delete s =>
    obtain ⟨collection, f, -, hf, rfl⟩ := delete_eq_ok h
    exact wellFormed_restriction hf
  | select s =>
    obtain ⟨p, rfl⟩ := select_eq_ok h
    exact p.wellFormed

end Direct
end RelDoc
