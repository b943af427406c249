import RelDoc.Proofs.Construction
import RelDoc.Proofs.Identity

/-!
# Which statements change a single row

A command knows from its filter whether it works on the one document that the filter pins. Seen from the statement,
that is so exactly if its restriction pins the identifier (`Dialect.Pins`): by an equality of a column stored in the
primary key with a value, in a group, or as one of the members of a conjunction (`Direct.pinsId_iff`). An update is
then rendered for one document, and whatever values are bound, the documents that the rendered filter matches have
one primary key, as filters compare (`Dialect.commandOf_single`).
-/

namespace RelDoc

open Outcome

/-! ### Restrictions that pin the identifier -/

/-- Literals and parameters. -/
def Expression.IsValue : Expression → Prop
  | literal _ | parameter _ => True
  | column _ | null | function _ _ | arithmetic _ _ _ => False

/-- The predicate, on rows of the table, pins the identifier. -/
inductive Dialect.Pins (d : Dialect) (t : Table) : Predicate → Prop where
  | column {c : Column} {e : Expression} (hc : d.catalog.fieldOf t.name c.name = .ok idField) (he : e.IsValue) :
    Pins d t (.comparison .equal (.column c) e)
  | value {c : Column} {e : Expression} (hc : d.catalog.fieldOf t.name c.name = .ok idField) (he : e.IsValue) :
    Pins d t (.comparison .equal e (.column c))
  | grouped {p : Predicate} (h : Pins d t p) : Pins d t (.grouped p)
  | conjunction {p : Predicate} {parts : List Predicate} (hp : p ∈ parts) (h : Pins d t p) :
    Pins d t (.junction .all parts)

theorem Comparison.toQuery_eq_eq {c : Comparison} : c.toQuery = .ok .eq ↔ c = .equal := by
  cases c <;> simp [toQuery]

theorem Comparison.flip_eq_equal {c : Comparison} : c.flip = .equal ↔ c = .equal := by
  cases c <;> simp [flip]

namespace Dialect.Plans

variable {d : Dialect} {t : Table} {e : Expression} {path : FieldPath} {term : Term}

theorem isValue (h : d.Plans t e (.value term)) : e.IsValue := by
  cases h <;> trivial

theorem field_eq (h : d.Plans t e (.field path)) :
    ∃ c, e = .column c ∧ d.catalog.fieldOf t.name c.name = .ok path.text := by
  cases h with
  | column hc => exact ⟨_, rfl, hc⟩

end Dialect.Plans

theorem Filter.pinsId_comparison {path : FieldPath} {o : QueryOperator} {term : Term} :
    (comparison path o term).pinsId = true ↔ o = .eq ∧ path.text = idField := by
  rw [pinsId, Bool.and_eq_true, decide_eq_true_iff, FieldPath.isId, decide_eq_true_iff]

namespace Direct

variable {d : Dialect} {t : Table}

/-- A planned comparison pins the primary key exactly if it is an equality with a column stored there. -/
theorem pinsId_comparison_iff {c : Comparison} {left right : Expression} {f : Filter}
    (h : comparison d (some t) c left right = .ok f) : f.pinsId = true ↔ d.Pins t (.comparison c left right) := by
  obtain ⟨path, o, term, rfl, ⟨ho, hl, hr⟩ | ⟨ho, hl, hr⟩⟩ := comparison_eq_ok h
  · obtain ⟨col, rfl, hcol⟩ := hl.field_eq
    rw [Filter.pinsId_comparison]
    constructor
    · rintro ⟨rfl, hid⟩
      obtain rfl := Comparison.toQuery_eq_eq.1 ho
      exact .column (hid ▸ hcol) hr.isValue
    · intro hp
      cases hp with
      | column hc _ => exact ⟨Except.ok.inj (ho.symm.trans rfl), Except.ok.inj (hcol.symm.trans hc)⟩
      | value _ he => cases he
  · obtain ⟨col, rfl, hcol⟩ := hr.field_eq
    rw [Filter.pinsId_comparison]
    constructor
    · rintro ⟨rfl, hid⟩
      obtain rfl := Comparison.flip_eq_equal.1 (Comparison.toQuery_eq_eq.1 ho)
      exact .value (hid ▸ hcol) hl.isValue
    · intro hp
      cases hp with
      | value hc _ => exact ⟨Except.ok.inj (ho.symm.trans rfl), Except.ok.inj (hcol.symm.trans hc)⟩
      | column _ he => cases he

mutual
/-- Planning keeps whether a predicate pins the identifier. -/
theorem pinsId_iff : ∀ {p : Predicate} {f : Filter}, filter d (some t) p = .ok f →
    (f.pinsId = true ↔ d.Pins t p)
  | .comparison c left right, f, h => by
    rw [filter] at h
    exact pinsId_comparison_iff h
  | .junction kind parts, f, h => by
    rw [filter] at h
    obtain ⟨fs, hfs, h⟩ := bind_eq_ok.1 h
    obtain ⟨-, rfl⟩ := Filter.combine_eq_ok h
    rw [Filter.pinsId, Bool.and_eq_true, decide_eq_true_iff, anyPinsId_iff hfs]
    constructor
    · rintro ⟨hkind, p, hp, hpin⟩
      cases kind with
      | all => exact .conjunction hp hpin
      | any => cases hkind
    · intro hp
      cases hp with
      | conjunction hp hpin => exact ⟨rfl, _, hp, hpin⟩
  | .negated p, f, h => by
    rw [filter] at h
    obtain ⟨inner, -, h⟩ := bind_eq_ok.1 h
    obtain ⟨-, rfl⟩ := Filter.combine_eq_ok h
    rw [Filter.pinsId, Bool.and_eq_true, decide_eq_true_iff]
    constructor
    · rintro ⟨hnor, -⟩
      cases hnor
    · intro hp
      cases hp
  | .grouped p, f, h => by
    rw [filter] at h
    rw [pinsId_iff h]
    constructor
    · exact .grouped
    · intro hp
      cases hp with
      | grouped hp => exact hp
  | .nullness .., f, h | .membership .., f, h | .pattern .., f, h | .between .., f, h => by simp [filter] at h

theorem anyPinsId_iff : ∀ {ps : List Predicate} {fs : List Filter}, filters d (some t) ps = .ok fs →
    (Filter.anyPinsId fs = true ↔ ∃ p ∈ ps, d.Pins t p)
  | [], fs, h => by
    rw [filters] at h
    obtain rfl := Except.ok.inj h
    simp [Filter.anyPinsId]
  | p :: rest, fs, h => by
    rw [filters] at h
    obtain ⟨f, hf, h⟩ := bind_eq_ok.1 h
    obtain ⟨more, hm, h⟩ := bind_eq_ok.1 h
    obtain rfl := Except.ok.inj h
    rw [Filter.anyPinsId, Bool.or_eq_true, pinsId_iff hf, anyPinsId_iff hm, List.exists_mem_cons_iff]
end

/-- Without a restriction nothing is pinned. -/
theorem pinsId_restriction_iff {r : Option Predicate} {f : Filter} (h : restriction d (some t) r = .ok f) :
    f.pinsId = true ↔ ∃ p, r = some p ∧ d.Pins t p := by
  cases r with
  | none =>
    obtain rfl := Except.ok.inj h
    simp [Filter.pinsId]
  | some p =>
    rw [pinsId_iff h]
    constructor
    · exact fun hp => ⟨p, rfl, hp⟩
    · rintro ⟨q, hq, hp⟩
      exact Option.some.inj hq ▸ hp

end Direct

/-! ### Statements that change rows -/

namespace Statement

/-- The table and the restriction of a statement that changes or removes rows. -/
def change? : Statement → Option (Table × Option Predicate)
  | update s => some (s.table, s.restriction)
  | delete s => some (s.table, s.restriction)
  | insert _ | select _ => none

end Statement

namespace Command

/-- The document changes or removes the documents that `query` matches in the command's collection. An update says in
it whether it means every match. -/
def RendersAs (c : Command) (single : Bool) (query document : Document) : Prop :=
  match c with
  | update collection _ _ => ∃ change : Value, document =
      [("update", .string collection), ("updates", .array [.document
        [("q", .document query), ("u", change), ("multi", .boolean (!single))]])]
  | delete collection _ => document =
      [("delete", .string collection), ("deletes", .array [.document [("q", .document query), ("limit", .int32 0)]])]
  | insert _ _ | aggregate _ _ => False

end Command

namespace Dialect

variable {d : Dialect} {t : Table}

/-- The planned command of a statement that changes or removes rows, with its filter. -/
theorem planned_change {s : Statement} {r : Option Predicate} {c : Command} (hs : s.change? = some (t, r))
    (h : d.commandOf s = .ok c) : ∃ f, Direct.restriction d (some t) r = .ok f ∧ c.isSingle? = some f.pinsId ∧
      ∀ σ, c.RendersAs f.pinsId (f.fill σ) (c.fill σ) := by
  rw [d.commandOf_eq] at h
  cases s with
  | insert | select => cases hs
  | update s =>
    obtain ⟨rfl, rfl⟩ := Prod.mk.inj (Option.some.inj hs)
    obtain ⟨collection, f, us, -, hf, -, -, rfl⟩ := Direct.updateCommand_eq_ok h
    exact ⟨f, hf, rfl, fun σ => ⟨_, rfl⟩⟩
  | delete s =>
    obtain ⟨rfl, rfl⟩ := Prod.mk.inj (Option.some.inj hs)
    obtain ⟨collection, f, -, hf, rfl⟩ := Direct.delete_eq_ok h
    exact ⟨f, hf, rfl, fun σ => rfl⟩

/-- Two rows that a restriction matches have one primary key if it pins the identifier. -/
theorem equals_of_pinned (hc : d.codec.Distinct) {σ : Nat → Value} (hσ : ∀ n, (σ n).Distinct) {r : Option Predicate}
    {f : Filter} (hf : Direct.restriction d (some t) r = .ok f) (hpin : f.pinsId = true) {a b : Document}
    (ha : a.satisfies (f.fill σ) = .ok true) (hb : b.satisfies (f.fill σ) = .ok true)
    (hdistinct : (Value.document b).Distinct) :
    ∃ x y, Dict.get? a idField = some x ∧ Dict.get? b idField = some y ∧ x.equals y = true := by
  obtain ⟨p, rfl, -⟩ := (Direct.pinsId_restriction_iff hf).1 hpin
  obtain ⟨v, hv, hrow⟩ := pinned_filter hc hσ hf hpin
  obtain ⟨x, hx, hxv⟩ := hrow a ha
  obtain ⟨y, hy, hyv⟩ := hrow b hb
  -- both keys equal the value in the filter, on its left
  exact ⟨x, y, hx, hy, Value.equals_trans hxv (Value.equals_symm (hdistinct.get? hy) hv hyv)⟩

/-- The command of an UPDATE or DELETE is for a single document exactly if its restriction pins the identifier; an
update is rendered so, with values and without. Then whatever values are bound, any two documents that the bound
filter matches have primary keys that filters find equal. -/
theorem commandOf_single (hc : d.codec.Distinct) {s : Statement} {r : Option Predicate} {c : Command}
    (hs : s.change? = some (t, r)) (h : d.commandOf s = .ok c) : ∃ single, c.isSingle? = some single ∧
      (single = true ↔ ∃ p, r = some p ∧ d.Pins t p) ∧
      (∃ query document, c.toDocument = .ok document ∧ c.RendersAs single query document) ∧
      ∀ values document, (∀ v ∈ values, v.Distinct) → c.bind values = .ok document →
        ∃ query, c.RendersAs single query document ∧ (single = true →
          ∀ a b : Document, a.satisfies query = .ok true → b.satisfies query = .ok true → (Value.document b).Distinct →
          ∃ x y, Dict.get? a idField = some x ∧ Dict.get? b idField = some y ∧ x.equals y = true) := by
  obtain ⟨f, hf, hsingle, hrenders⟩ := planned_change hs h
  have hwell : c.WellFormed := Direct.wellFormed_command (d.commandOf_eq s ▸ h)
  refine ⟨f.pinsId, hsingle, Direct.pinsId_restriction_iff hf, ⟨_, _, Command.toDocument_eq_ok hwell, hrenders _⟩, ?_⟩
  intro values document hvalues hbind
  obtain ⟨-, rfl⟩ := (Command.bind_eq_ok_iff hwell).1 hbind
  refine ⟨_, hrenders _, fun hpin a b ha hb hdistinct => ?_⟩
  exact equals_of_pinned hc (distinct_valuesAt hvalues) hf hpin ha hb hdistinct

/-- `UPDATE people SET age = 30 WHERE age < 18 AND (?0 = id)` -/
def grownUp : Statement :=
  .update
    { table := ⟨"people", none⟩
      assignments := [⟨⟨none, "age"⟩, .literal (.int32 30)⟩]
      restriction := some (.junction .all
        [.comparison .less (.column ⟨none, "age"⟩) (.literal (.int32 18)),
          .grouped (.comparison .equal (.parameter 0) (.column ⟨none, "id"⟩))]) }

/-- The command of the update. -/
def grownUpCommand : Command :=
  .update "persons"
    (.combination .and
      [.comparison ⟨"years"⟩ .lt (.literal (.int32 18)), .comparison ⟨"_id"⟩ .eq (.placeholder 0)])
    [⟨⟨"years"⟩, .literal (.int32 30)⟩]

/-- With seven bound, the update matches rows under seven as a number of either width. -/
theorem commandOf_single_grownUp : people.commandOf grownUp = .ok grownUpCommand ∧
    grownUpCommand.isSingle? = some true ∧
    (∃ p, (grownUp.change?.map Prod.snd) = some (some p) ∧ people.Pins ⟨"people", none⟩ p) ∧
    ∃ query document, grownUpCommand.bind [.int32 7] = .ok document ∧ grownUpCommand.RendersAs true query document ∧
      Document.satisfies [("_id", .int32 7), ("years", .int32 5)] query = .ok true ∧
      Document.satisfies [("_id", .int64 7), ("years", .int32 6)] query = .ok true ∧
      (Value.int32 7).equals (.int64 7) = true := by
  have hplan : people.commandOf grownUp = .ok grownUpCommand := (people.commandOf_eq _).trans rfl
  have hbind : grownUpCommand.bind [.int32 7] = .ok (grownUpCommand.fill (valuesAt [.int32 7])) := by
    refine Command.bind_eq_ok (Direct.wellFormed_command (people.commandOf_eq grownUp ▸ hplan)) fun n => ?_
    simp [grownUpCommand, Command.positions, Filter.positions, Filter.listPositions, Term.positions]
  obtain ⟨single, hsingle, hiff, -, hbound⟩ := commandOf_single Codec.distinct_exact rfl hplan
  obtain rfl : true = single := Option.some.inj hsingle
  obtain ⟨p, hp, hpin⟩ := hiff.1 rfl
  obtain ⟨query, hrenders, hsound⟩ := hbound [.int32 7] _ (by simp [Value.Distinct]) hbind
  have hquery : query = [("$and", .array [.document [("years", .document [("$lt", .int32 18)])],
      .document [("_id", .document [("$eq", .int32 7)])]])] := by
    obtain ⟨change, hdoc⟩ := hrenders
    cases hdoc
    rfl
  subst hquery
  obtain ⟨x, y, hx, hy, hxy⟩ := hsound rfl [("_id", .int32 7), ("years", .int32 5)]
    [("_id", .int64 7), ("years", .int32 6)] rfl rfl (by simp [Value.Distinct, Value.DistinctFields])
  obtain rfl : Value.int32 7 = x := Option.some.inj hx
  obtain rfl : Value.int64 7 = y := Option.some.inj hy
  exact ⟨hplan, hsingle, ⟨p, congrArg some hp, hpin⟩, _, _, hbind, hrenders, rfl, rfl, hxy⟩

end Dialect
end RelDoc
