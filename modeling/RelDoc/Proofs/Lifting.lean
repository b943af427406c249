import Mathlib.Data.List.Forall2
import RelDoc.Proofs.Parameters

/-!
# Literals lifted into parameters

`s.Lifts s' l` says that the statement `s'` is `s` with some occurrences of literals replaced by
parameters: `l` lists them, in order of writing, each with the position of its parameter. If the
positions follow those of the parameters there are and the literals are supplied as their values, the
rendered command is the same document (`Session.render_lifted`).

Planning both statements side by side (`Keeps`), each step that succeeds for `s` has encoded the literals
it lifted, succeeds for `s'` and gives a fragment that is filled alike: where one has the literal the
other has the place of a parameter with its value.
-/

namespace RelDoc

open Outcome

/-- Literals, each with the position of the parameter that takes its place. -/
abbrev Lifting := List (Scalar × Nat)

/-! ### Statements -/

/-- Item by item, with nothing left over. -/
inductive Each {α : Type} (R : α → α → Lifting → Prop) : List α → List α → Lifting → Prop where
  | nil : Each R [] [] []
  | cons {a a' : α} {as as' : List α} {l m : Lifting} (h : R a a' l) (hs : Each R as as' m) :
    Each R (a :: as) (a' :: as') (l ++ m)

theorem Each.single {α : Type} {R : α → α → Lifting → Prop} {a a' : α} {l : Lifting} (h : R a a' l) :
    Each R [a] [a'] l := by
  have h := Each.cons h .nil
  rwa [List.append_nil] at h

inductive Expression.Lifts : Expression → Expression → Lifting → Prop where
  | same (e : Expression) : Lifts e e []
  | literal (v : Scalar) (n : Nat) : Lifts (.literal v) (.parameter n) [(v, n)]
  | function (name : String) {as as' : List Expression} {l : Lifting} (h : Each Lifts as as' l) :
    Lifts (.function name as) (.function name as') l
  | arithmetic (o : Arithmetic) {a a' b b' : Expression} {l m : Lifting} (ha : Lifts a a' l) (hb : Lifts b b' m) :
    Lifts (.arithmetic o a b) (.arithmetic o a' b') (l ++ m)

inductive Predicate.Lifts : Predicate → Predicate → Lifting → Prop where
  | comparison (c : Comparison) {a a' b b' : Expression} {l m : Lifting} (ha : a.Lifts a' l) (hb : b.Lifts b' m) :
    Lifts (.comparison c a b) (.comparison c a' b') (l ++ m)
  | junction (kind : Junction) {ps ps' : List Predicate} {l : Lifting} (h : Each Lifts ps ps' l) :
    Lifts (.junction kind ps) (.junction kind ps') l
  | negated {p p' : Predicate} {l : Lifting} (h : Lifts p p' l) : Lifts (.negated p) (.negated p') l
  | grouped {p p' : Predicate} {l : Lifting} (h : Lifts p p' l) : Lifts (.grouped p) (.grouped p') l
  | nullness (n : Bool) {e e' : Expression} {l : Lifting} (h : e.Lifts e' l) :
    Lifts (.nullness e n) (.nullness e' n) l
  | membership (n : Bool) {e e' : Expression} {es es' : List Expression} {l m : Lifting} (h : e.Lifts e' l)
    (hs : Each Expression.Lifts es es' m) : Lifts (.membership e es n) (.membership e' es' n) (l ++ m)
  | pattern (n : Bool) {a a' b b' : Expression} {l m : Lifting} (ha : a.Lifts a' l) (hb : b.Lifts b' m) :
    Lifts (.pattern a b n) (.pattern a' b' n) (l ++ m)
  | between (n : Bool) {a a' b b' c c' : Expression} {l m k : Lifting} (ha : a.Lifts a' l) (hb : b.Lifts b' m)
    (hc : c.Lifts c' k) : Lifts (.between a b c n) (.between a' b' c' n) (l ++ m ++ k)

def Assignment.Lifts (a a' : Assignment) (l : Lifting) : Prop :=
  a'.column = a.column ∧ a.value.Lifts a'.value l

def Selection.Lifts (s s' : Selection) (l : Lifting) : Prop :=
  s'.alias = s.alias ∧ s.expression.Lifts s'.expression l

def SortItem.Lifts (s s' : SortItem) (l : Lifting) : Prop :=
  s'.direction = s.direction ∧ s.expression.Lifts s'.expression l

def Join.Lifts (j j' : Join) (l : Lifting) : Prop :=
  j'.kind = j.kind ∧ j'.table = j.table ∧ Each Predicate.Lifts j.condition.toList j'.condition.toList l

inductive Select.Lifts (s s' : Select) : Lifting → Prop where
  | intro {l₁ l₂ l₃ l₄ l₅ l₆ l₇ : Lifting} (table : s'.table = s.table) (isDistinct : s'.isDistinct = s.isDistinct)
    (selections : Each Selection.Lifts s.selections s'.selections l₁) (joins : Each Join.Lifts s.joins s'.joins l₂)
    (restriction : Each Predicate.Lifts s.restriction.toList s'.restriction.toList l₃)
    (groupBy : Each Expression.Lifts s.groupBy s'.groupBy l₄)
    (orderBy : Each SortItem.Lifts s.orderBy s'.orderBy l₅)
    (offset : Each Expression.Lifts s.offset.toList s'.offset.toList l₆)
    (fetch : Each Expression.Lifts s.fetch.toList s'.fetch.toList l₇) :
    Lifts s s' (l₁ ++ (l₂ ++ (l₃ ++ (l₄ ++ (l₅ ++ (l₆ ++ l₇))))))

inductive RowSource.Lifts : RowSource → RowSource → Lifting → Prop where
  | rows {rows rows' : List (List Expression)} {l : Lifting} (h : Each (Each Expression.Lifts) rows rows' l) :
    Lifts (.rows rows) (.rows rows') l
  | select {s s' : Select} {l : Lifting} (h : s.Lifts s' l) : Lifts (.select s) (.select s') l

inductive Statement.Lifts : Statement → Statement → Lifting → Prop where
  | insert {s s' : Insert} {l : Lifting} (table : s'.table = s.table) (columns : s'.columns = s.columns)
    (source : s.source.Lifts s'.source l) : Lifts (.insert s) (.insert s') l
  | update {s s' : Update} {l m : Lifting} (table : s'.table = s.table)
    (assignments : Each Assignment.Lifts s.assignments s'.assignments l)
    (restriction : Each Predicate.Lifts s.restriction.toList s'.restriction.toList m) :
    Lifts (.update s) (.update s') (l ++ m)
  | delete {s s' : Delete} {l : Lifting} (table : s'.table = s.table)
    (restriction : Each Predicate.Lifts s.restriction.toList s'.restriction.toList l) :
    Lifts (.delete s) (.delete s') l
  | select {s s' : Select} {l : Lifting} (h : s.Lifts s' l) : Lifts (.select s) (.select s') l

/-! ### Parameters -/

/-- The parameters `ps'` are `ps` and those of the lifted literals. -/
def Adds (ps ps' : List Nat) (l : Lifting) : Prop := ps'.Perm (ps ++ l.map Prod.snd)

namespace Adds

theorem nil (ps : List Nat) : Adds ps ps [] := .of_eq (List.append_nil ps).symm

theorem append {ps ps' qs qs' : List Nat} {l m : Lifting} (hp : Adds ps ps' l) (hq : Adds qs qs' m) :
    Adds (ps ++ qs) (ps' ++ qs') (l ++ m) := by
  have hp := List.perm_iff_count.1 hp
  have hq := List.perm_iff_count.1 hq
  refine List.perm_iff_count.2 fun n => ?_
  have hpn := hp n
  have hqn := hq n
  simp only [List.map_append, List.count_append] at hpn hqn ⊢
  omega

theorem flatMap {α : Type} {R : α → α → Lifting → Prop} {g : α → List Nat} {as as' : List α} {l : Lifting}
    (h : Each R as as' l) (hg : ∀ a a' m, R a a' m → Adds (g a) (g a') m) :
    Adds (as.flatMap g) (as'.flatMap g) l := by
  induction h with
  | nil => exact nil []
  | cons h _ ih => exact append (hg _ _ _ h) ih

end Adds

mutual
theorem Expression.Lifts.adds : ∀ {e e' : Expression} {l : Lifting}, e.Lifts e' l → Adds e.parameters e'.parameters l
  | .function name as, e', l, h => by
    cases h with
    | same => exact Adds.nil _
    | function _ h =>
      rw [Expression.parameters, Expression.parameters]
      exact Expression.Lifts.addsList h
  | .arithmetic o a b, e', l, h => by
    cases h with
    | same => exact Adds.nil _
    | arithmetic _ ha hb =>
      rw [Expression.parameters, Expression.parameters]
      exact Adds.append (Expression.Lifts.adds ha) (Expression.Lifts.adds hb)
  | .literal v, e', l, h => by
    cases h with
    | same => exact Adds.nil _
    | literal _ n => exact .refl [n]
  | .column c, e', l, h | .parameter n, e', l, h | .null, e', l, h => by
    cases h
    exact Adds.nil _

theorem Expression.Lifts.addsList : ∀ {es es' : List Expression} {l : Lifting}, Each Expression.Lifts es es' l →
    Adds (Expression.listParameters es) (Expression.listParameters es') l
  | [], es', l, h => by
    cases h
    exact Adds.nil _
  | e :: rest, es', l, h => by
    cases h with
    | cons h hs => exact Adds.append (Expression.Lifts.adds h) (Expression.Lifts.addsList hs)
end

theorem Expression.Lifts.addsOption {o o' : Option Expression} {l : Lifting}
    (h : Each Expression.Lifts o.toList o'.toList l) :
    Adds (Expression.optionParameters o) (Expression.optionParameters o') l :=
  Adds.flatMap h fun _ _ _ => Expression.Lifts.adds

mutual
theorem Predicate.Lifts.adds : ∀ {p p' : Predicate} {l : Lifting}, p.Lifts p' l → Adds p.parameters p'.parameters l
  | .comparison c a b, p', l, h => by
    cases h with
    | comparison _ ha hb =>
      rw [Predicate.parameters, Predicate.parameters]
      exact Adds.append ha.adds hb.adds
  | .junction kind ps, p', l, h => by
    cases h with
    | junction _ h =>
      rw [Predicate.parameters, Predicate.parameters]
      exact Predicate.Lifts.addsList h
  | .negated p, p', l, h => by
    cases h with
    | negated h =>
      rw [Predicate.parameters, Predicate.parameters]
      exact Predicate.Lifts.adds h
  | .grouped p, p', l, h => by
    cases h with
    | grouped h =>
      rw [Predicate.parameters, Predicate.parameters]
      exact Predicate.Lifts.adds h
  | .nullness e n, p', l, h => by
    cases h with
    | nullness _ h => exact h.adds
  | .membership e es n, p', l, h => by
    cases h with
    | membership _ h hs => exact Adds.append h.adds (Expression.Lifts.addsList hs)
  | .pattern a b n, p', l, h => by
    cases h with
    | pattern _ ha hb => exact Adds.append ha.adds hb.adds
  | .between a b c n, p', l, h => by
    cases h with
    | between _ ha hb hc => exact Adds.append (Adds.append ha.adds hb.adds) hc.adds

theorem Predicate.Lifts.addsList : ∀ {ps ps' : List Predicate} {l : Lifting}, Each Predicate.Lifts ps ps' l →
    Adds (Predicate.listParameters ps) (Predicate.listParameters ps') l
  | [], ps', l, h => by
    cases h
    exact Adds.nil _
  | p :: rest, ps', l, h => by
    cases h with
    | cons h hs => exact Adds.append (Predicate.Lifts.adds h) (Predicate.Lifts.addsList hs)
end

theorem Predicate.Lifts.addsOption {o o' : Option Predicate} {l : Lifting}
    (h : Each Predicate.Lifts o.toList o'.toList l) :
    Adds (Predicate.optionParameters o) (Predicate.optionParameters o') l :=
  Adds.flatMap h fun _ _ _ => Predicate.Lifts.adds

theorem Select.Lifts.adds {s s' : Select} {l : Lifting} (h : s.Lifts s' l) : Adds s.parameters s'.parameters l := by
  obtain ⟨-, -, selections, joins, restriction, groupBy, orderBy, offset, fetch⟩ := h
  have hselections := Adds.flatMap (g := fun s => s.expression.parameters) selections fun _ _ _ h => h.2.adds
  have hjoins := Adds.flatMap (g := fun j => Predicate.optionParameters j.condition) joins
    fun _ _ _ h => Predicate.Lifts.addsOption h.2.2
  have horderBy := Adds.flatMap (g := fun s => s.expression.parameters) orderBy fun _ _ _ h => h.2.adds
  have hgroupBy := Adds.flatMap groupBy fun _ _ _ h => h.adds
  have hcounts := (Expression.Lifts.addsOption offset).append (Expression.Lifts.addsOption fetch)
  exact hselections.append (hjoins.append ((Predicate.Lifts.addsOption restriction).append
    (hgroupBy.append (horderBy.append hcounts))))

/-- Lifting keeps the parameters of a statement and adds those of the lifted literals. -/
theorem Statement.Lifts.adds {s s' : Statement} {l : Lifting} (h : s.Lifts s' l) :
    Adds s.parameters s'.parameters l := by
  cases h with
  | @insert s s' _ _ _ source =>
    obtain ⟨_, _, r⟩ := s
    obtain ⟨_, _, r'⟩ := s'
    cases source with
    | rows h => exact Adds.flatMap h fun _ _ _ hr => Adds.flatMap hr fun _ _ _ he => he.adds
    | select h => exact h.adds
  | update _ assignments restriction =>
    exact (Adds.flatMap assignments fun _ _ _ h => h.2.adds).append (Predicate.Lifts.addsOption restriction)
  | delete _ restriction => exact Predicate.Lifts.addsOption restriction
  | select h => exact h.adds

end RelDoc
