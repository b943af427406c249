import RelDoc.Proofs.Lifting

/-!
# Literals and parameters are interchangeable

A statement and one lifted from it are planned side by side. `Keeps d σ S l x y` says of two steps that
where `x` succeeds the literals of `l` were encoded and `y` succeeds with a result that `S` relates to that
of `x`, provided that `σ` gives each parameter of `l` the value of its literal. Such steps follow one
another (`Keeps.bind`), so that by recursion on the statement the two commands are filled alike
(`Direct.keeps_command`): a literal that was checked while planning stands where the other command has the
place of a parameter, and a place passes every check that a literal does. Rendering then binds the same
values (`Session.render_lifted`).
-/

namespace RelDoc

open Outcome

namespace Lifting

/-- Every literal is encoded. -/
def Encodes (d : Dialect) (l : Lifting) : Prop := ∀ p ∈ l, ∃ w, d.codec.encode p.1 = .ok w

/-- Every parameter has the value of its literal. -/
def Fits (d : Dialect) (σ : Nat → Value) (l : Lifting) : Prop := ∀ p ∈ l, ∀ w, d.codec.encode p.1 = .ok w → σ p.2 = w

theorem encodes_append {d : Dialect} {l m : Lifting} (hl : Encodes d l) (hm : Encodes d m) : Encodes d (l ++ m) := by
  intro p hp
  rcases List.mem_append.1 hp with hp | hp
  · exact hl p hp
  · exact hm p hp

theorem encodes_nil (d : Dialect) : Encodes d [] := fun _ hp => absurd hp List.not_mem_nil

end Lifting

/-! ### Two steps side by side -/

def Keeps (d : Dialect) (σ : Nat → Value) {α : Type} (S : α → α → Prop) (l : Lifting) (x y : Except Error α) : Prop :=
  l.Fits d σ → ∀ a, x = .ok a → l.Encodes d ∧ ∃ b, y = .ok b ∧ S a b

namespace Keeps

variable {d : Dialect} {σ : Nat → Value} {α β : Type} {S : α → α → Prop} {T : β → β → Prop} {l m : Lifting}
  {x y : Except Error α} {f g : α → Except Error β}

theorem error (e : Error) (y : Except Error α) : Keeps d σ S l (.error e) y := fun _ _ h => by cases h

theorem ok {a b : α} (h : S a b) : Keeps d σ S [] (.ok a) (.ok b) := by
  intro _ c hc
  obtain rfl := Except.ok.inj hc
  exact ⟨Lifting.encodes_nil d, b, rfl, h⟩

theorem refl (hS : ∀ a, S a a) (x : Except Error α) : Keeps d σ S [] x x :=
  fun _ a ha => ⟨Lifting.encodes_nil d, a, ha, hS a⟩

theorem bind (hx : Keeps d σ S l x y) (hk : ∀ a b, S a b → Keeps d σ T m (f a) (g b)) :
    Keeps d σ T (l ++ m) (x >>= f) (y >>= g) := by
  intro hfit c hc
  obtain ⟨a, ha, hc⟩ := bind_eq_ok.1 hc
  obtain ⟨hl, b, hb, hab⟩ := hx (fun p hp => hfit p (List.mem_append_left _ hp)) a ha
  obtain ⟨hm, c', hc', hcc⟩ := hk a b hab (fun p hp => hfit p (List.mem_append_right _ hp)) c hc
  exact ⟨Lifting.encodes_append hl hm, c', bind_eq_ok.2 ⟨b, hb, hc'⟩, hcc⟩

/-- A last step that lifts nothing. -/
theorem andThen (hx : Keeps d σ S l x y) (hk : ∀ a b, S a b → Keeps d σ T [] (f a) (g b)) :
    Keeps d σ T l (x >>= f) (y >>= g) := by
  have h := bind hx hk
  rwa [List.append_nil] at h

/-- A first step that both have. -/
theorem after (x : Except Error α) (hk : ∀ a, Keeps d σ T m (f a) (g a)) :
    Keeps d σ T m (x >>= f) (x >>= g) :=
  bind (refl (S := Eq) (fun _ => rfl) x) fun a _ hab => hab ▸ hk a

theorem perm (h : Keeps d σ S l x y) (hl : l.Perm m) : Keeps d σ S m x y := by
  intro hfit a ha
  obtain ⟨hen, hb⟩ := h (fun p hp => hfit p (hl.mem_iff.1 hp)) a ha
  exact ⟨fun p hp => hen p (hl.mem_iff.2 hp), hb⟩

theorem mapM {R : α → α → Lifting → Prop} {f : α → Except Error β} {as as' : List α} (h : Each R as as' l)
    (hf : ∀ a a' m, R a a' m → Keeps d σ T m (f a) (f a')) :
    Keeps d σ (List.Forall₂ T) l (as.mapM f) (as'.mapM f) := by
  induction h with
  | nil => exact ok .nil
  | cons h _ ih =>
    rw [List.mapM_cons, List.mapM_cons]
    exact bind (hf _ _ _ h) fun _ _ hb => andThen ih fun _ _ hbs => ok (.cons hb hbs)

end Keeps

/-! ### Fragments that are filled alike -/

variable (σ : Nat → Value)

/-- Filled alike, and taken for a count where the other is. -/
structure Term.Agrees (t t' : Term) : Prop where
  fill_eq : t'.fill σ = t.fill σ
  counts : ∀ stage, checkCount stage t = .ok () → checkCount stage t' = .ok ()

inductive Operand.Agrees : Operand → Operand → Prop where
  | field (path : FieldPath) : Agrees (.field path) (.field path)
  | value {t t' : Term} (h : t.Agrees σ t') : Agrees (.value t) (.value t')

structure Filter.Agrees (f f' : Filter) : Prop where
  pinsId_eq : f'.pinsId = f.pinsId
  fill_eq : f'.fill σ = f.fill σ

structure FieldUpdate.Agrees (u u' : FieldUpdate) : Prop where
  field_eq : u'.field = u.field
  fill_eq : u'.value.fill σ = u.value.fill σ

def Template.Agrees (named named' : List (String × Term)) : Prop :=
  Term.fillFields σ named' = Term.fillFields σ named

def Stage.Agrees (s s' : Stage) : Prop := s'.fill σ = s.fill σ

def Command.Agrees (c c' : Command) : Prop := c'.fill σ = c.fill σ

variable {σ}

theorem Stage.agrees_of_argument {s s' : Stage} (hn : s'.name = s.name) (ha : s'.argument σ = s.argument σ) :
    s.Agrees σ s' := by rw [Agrees, fill, fill, hn, ha]

theorem Term.Agrees.refl (t : Term) : t.Agrees σ t := ⟨rfl, fun _ h => h⟩

theorem Operand.Agrees.refl : ∀ o : Operand, o.Agrees σ o
  | .field path => .field path
  | .value t => .value (.refl t)

namespace Filter

theorem Agrees.lists {fs fs' : List Filter} (h : List.Forall₂ (Agrees σ) fs fs') :
    anyPinsId fs' = anyPinsId fs ∧ fillList σ fs' = fillList σ fs := by
  induction h with
  | nil => exact ⟨rfl, rfl⟩
  | cons h _ ih =>
    constructor
    · rw [anyPinsId, anyPinsId, h.pinsId_eq, ih.1]
    · rw [fillList, fillList, h.fill_eq, ih.2]

theorem Agrees.combination (operator : Combinator) {fs fs' : List Filter} (h : List.Forall₂ (Agrees σ) fs fs') :
    Agrees σ (.combination operator fs) (.combination operator fs') := by
  obtain ⟨hp, hf⟩ := lists h
  constructor
  · rw [pinsId, pinsId, hp]
  · rw [fill, fill, hf]

end Filter

namespace Direct

variable {d : Dialect} {t : Table} {l m : Lifting}

/-! ### Expressions -/

theorem keeps_operand {e e' : Expression} (h : e.Lifts e' l) :
    Keeps d σ (Operand.Agrees σ) l (d.operand (some t) e) (d.operand (some t) e') := by
  cases h with
  | same => exact .refl .refl _
  | literal v n =>
    intro hfit o ho
    cases Dialect.operand_eq_ok ho with
    | @literal _ w hw hs =>
      have hσ : σ n = w := hfit (v, n) (List.mem_singleton_self _) w hw
      refine ⟨fun p hp => ?_, _, rfl, .value ⟨hσ, fun _ _ => rfl⟩⟩
      obtain rfl := List.mem_singleton.1 hp
      exact ⟨w, hw⟩
  | function => exact .error _ _
  | arithmetic => exact .error _ _

theorem keeps_valueOf (place : ValuePlace) {e e' : Expression} (h : e.Lifts e' l) :
    Keeps d σ (Term.Agrees σ) l (valueOf d (some t) place e) (valueOf d (some t) place e') :=
  .andThen (keeps_operand h) fun _ _ ho => by
    cases ho with
    | field path => exact .error _ _
    | value h => exact .ok h

theorem keeps_columnFieldOf (place : ColumnPlace) {e e' : Expression} (h : e.Lifts e' l) :
    Keeps d σ Eq l (columnFieldOf d (some t) place e) (columnFieldOf d (some t) place e') :=
  .andThen (keeps_operand h) fun _ _ ho => by
    cases ho with
    | field path => exact .ok rfl
    | value h => exact .error _ _

/-! ### Predicates -/

theorem keeps_comparisonFilter (c : Comparison) (operator : QueryOperator) {a a' b b' : Operand}
    (ha : a.Agrees σ a') (hb : b.Agrees σ b') :
    Keeps d σ (Filter.Agrees σ) [] (comparisonFilter c operator a b) (comparisonFilter c operator a' b') := by
  have agrees (path : FieldPath) (operator : QueryOperator) {t t' : Term} (h : t.Agrees σ t') :
      Filter.Agrees σ (.comparison path operator t) (.comparison path operator t') := by
    constructor
    · rw [Filter.pinsId, Filter.pinsId]
    · rw [Filter.fill, Filter.fill, h.fill_eq]
  cases ha with
  | field path =>
    cases hb with
    | field other => exact .error _ _
    | value h => exact .ok (agrees path operator h)
  | value h =>
    cases hb with
    | field path => exact .after _ fun flipped => .ok (agrees path flipped h)
    | value h => exact .error _ _

theorem keeps_comparison (c : Comparison) {a a' b b' : Expression} (ha : a.Lifts a' l) (hb : b.Lifts b' m) :
    Keeps d σ (Filter.Agrees σ) (l ++ m) (comparison d (some t) c a b) (comparison d (some t) c a' b') :=
  .after _ fun operator => .bind (keeps_operand ha) fun _ _ hx => .andThen (keeps_operand hb) fun _ _ hy =>
    keeps_comparisonFilter c operator hx hy

theorem keeps_combine (operator : Combinator) {fs fs' : List Filter} (h : List.Forall₂ (Filter.Agrees σ) fs fs') :
    Keeps d σ (Filter.Agrees σ) [] (Filter.combine operator fs) (Filter.combine operator fs') := by
  cases h with
  | nil => exact .error _ _
  | cons h hs => exact .ok (Filter.Agrees.combination operator (.cons h hs))

mutual
theorem keeps_filter : ∀ {p p' : Predicate} {l : Lifting}, p.Lifts p' l →
    Keeps d σ (Filter.Agrees σ) l (filter d (some t) p) (filter d (some t) p')
  | .comparison c a b, p', l, h => by
    cases h with
    | comparison _ ha hb =>
      rw [filter, filter]
      exact keeps_comparison c ha hb
  | .junction kind ps, p', l, h => by
    cases h with
    | junction _ h =>
      rw [filter, filter]
      exact .andThen (keeps_filters h) fun _ _ hfs => keeps_combine _ hfs
  | .negated p, p', l, h => by
    cases h with
    | negated h =>
      rw [filter, filter]
      exact .andThen (keeps_filter h) fun _ _ hf => keeps_combine _ (.cons hf .nil)
  | .grouped p, p', l, h => by
    cases h with
    | grouped h =>
      rw [filter, filter]
      exact keeps_filter h
  | .nullness .., p', l, h | .membership .., p', l, h | .pattern .., p', l, h | .between .., p', l, h => by
    rw [filter]
    exact .error _ _

theorem keeps_filters : ∀ {ps ps' : List Predicate} {l : Lifting}, Each Predicate.Lifts ps ps' l →
    Keeps d σ (List.Forall₂ (Filter.Agrees σ)) l (filters d (some t) ps) (filters d (some t) ps')
  | [], ps', l, h => by
    cases h
    rw [filters]
    exact .ok .nil
  | p :: rest, ps', l, h => by
    cases h with
    | cons h hs =>
      rw [filters, filters]
      exact .bind (keeps_filter h) fun _ _ hf => .andThen (keeps_filters hs) fun _ _ hfs => .ok (.cons hf hfs)
end

/-! ### Clauses -/

/-- An optional part is there in both statements or in neither. -/
theorem each_option {α : Type} {R : α → α → Lifting → Prop} {o o' : Option α} (h : Each R o.toList o'.toList l) :
    (o = none ∧ o' = none ∧ l = []) ∨ ∃ a a', o = some a ∧ o' = some a' ∧ R a a' l := by
  cases o with
  | none =>
    cases o' with
    | none =>
      cases h
      exact .inl ⟨rfl, rfl, rfl⟩
    | some a' => cases h
  | some a =>
    cases o' with
    | none => cases h
    | some a' =>
      cases h with
      | cons h hs =>
        cases hs
        rw [List.append_nil]
        exact .inr ⟨a, a', rfl, rfl, h⟩

theorem keeps_restriction {r r' : Option Predicate} (h : Each Predicate.Lifts r.toList r'.toList l) :
    Keeps d σ (Filter.Agrees σ) l (restriction d (some t) r) (restriction d (some t) r') := by
  obtain ⟨rfl, rfl, rfl⟩ | ⟨p, p', rfl, rfl, hp⟩ := each_option h
  · exact .ok ⟨rfl, rfl⟩
  · exact keeps_filter hp

theorem keeps_update {a a' : Assignment} (h : a.Lifts a' l) :
    Keeps d σ (FieldUpdate.Agrees σ) l (update d (some t) a) (update d (some t) a') := by
  obtain ⟨hc, hv⟩ := h
  rw [update, update, hc]
  refine .after _ fun field => .after _ fun identifier => ?_
  split
  · exact .error _ _
  · exact .andThen (keeps_valueOf .assignment hv) fun _ _ ht => .ok ⟨rfl, ht.fill_eq⟩

theorem each_length {α : Type} {R : α → α → Lifting → Prop} {as as' : List α} (h : Each R as as' l) :
    as'.length = as.length := by
  induction h with
  | nil => rfl
  | cons _ _ ih => rw [List.length_cons, List.length_cons, ih]

theorem keeps_row {fields : List FieldPath} {es es' : List Expression} (h : Each Expression.Lifts es es' l)
    (hl : es.length = fields.length) :
    Keeps d σ (Template.Agrees σ) l (row d (some t) fields es) (row d (some t) fields es') := by
  induction h generalizing fields with
  | nil => exact .refl (S := Template.Agrees σ) (fun _ => rfl) _
  | cons h _ ih =>
    cases fields with
    | nil => simp at hl
    | cons field rest =>
      rw [row, row]
      refine .bind (keeps_valueOf .insert h) fun _ _ ht => .andThen (ih (Nat.succ.inj hl)) fun _ _ hn => .ok ?_
      have hn : Term.fillFields σ _ = Term.fillFields σ _ := hn
      rw [Template.Agrees, Term.fillFields, Term.fillFields, ht.fill_eq, hn]

theorem keeps_document (fields : List FieldPath) {es es' : List Expression} (h : Each Expression.Lifts es es' l) :
    Keeps d σ (Template.Agrees σ) l (document d (some t) fields es) (document d (some t) fields es') := by
  rw [document, document, each_length h]
  split
  · exact .error _ _
  · next hl =>
    refine .andThen (keeps_row h (not_not.1 hl)) fun named named' hn => ?_
    have hkeys : named'.map Prod.fst = named.map Prod.fst := by
      rw [← Term.map_fst_fillFields σ, ← Term.map_fst_fillFields σ named]
      exact congrArg _ hn
    rw [Template.ofFields, Template.ofFields, hkeys]
    split
    · exact .error _ _
    · exact .ok hn

theorem keeps_projections {found : List Projection} {ss ss' : List Selection} (h : Each Selection.Lifts ss ss' l) :
    Keeps d σ Eq l (projections d (some t) found ss) (projections d (some t) found ss') := by
  induction h generalizing found with
  | nil => exact .ok rfl
  | cons h _ ih =>
    refine .bind (S := Eq) (.andThen (keeps_columnFieldOf .selection h.2) ?_) ?_
    · rintro _ _ rfl
      exact .ok rfl
    · rintro _ _ rfl
      exact ih

theorem keeps_sortKeys {fields : List Projection} {found : List SortKey} {ss ss' : List SortItem}
    (h : Each SortItem.Lifts ss ss' l) :
    Keeps d σ Eq l (sortKeys d (some t) fields found ss) (sortKeys d (some t) fields found ss') := by
  induction h generalizing found with
  | nil => exact .ok rfl
  | cons h _ ih =>
    refine .bind (S := Eq) (.andThen (keeps_columnFieldOf .orderBy h.2) ?_) ?_
    · rintro _ _ rfl
      rw [h.1]
      exact .ok rfl
    · rintro _ _ rfl
      exact .after _ fun _ => ih

theorem keeps_filterStage {r r' : Option Predicate} (h : Each Predicate.Lifts r.toList r'.toList l) :
    Keeps d σ (List.Forall₂ (Stage.Agrees σ)) l (filterStage d (some t) r) (filterStage d (some t) r') := by
  obtain ⟨rfl, rfl, rfl⟩ | ⟨p, p', rfl, rfl, hp⟩ := each_option h
  · exact .ok .nil
  · refine .andThen (keeps_filter hp) fun f f' hf => .ok (.cons ?_ .nil)
    exact Stage.agrees_of_argument rfl (congrArg Value.document hf.fill_eq)

/-- A place passes for every count. -/
theorem keeps_checkCount (stage : CountStage) {term term' : Term} (h : term.Agrees σ term') :
    Keeps d σ Eq [] (checkCount stage term) (checkCount stage term') :=
  fun _ _ hc => ⟨Lifting.encodes_nil d, (), h.counts stage hc, rfl⟩

theorem keeps_countStage (kind : CountStage) {o o' : Option Expression}
    (h : Each Expression.Lifts o.toList o'.toList l) :
    Keeps d σ (List.Forall₂ (Stage.Agrees σ)) l (countStage d (some t) kind o) (countStage d (some t) kind o') := by
  obtain ⟨rfl, rfl, rfl⟩ | ⟨e, e', rfl, rfl, he⟩ := each_option h
  · exact .ok .nil
  · refine .andThen (keeps_valueOf kind.place he) fun count count' hc => ?_
    have hstage : Stage.Agrees σ (kind.stage count) (kind.stage count') := by
      rw [Stage.Agrees, kind.fill_stage, kind.fill_stage, hc.fill_eq]
    exact .andThen (.andThen (keeps_checkCount kind hc) fun _ _ _ => .ok hstage) fun _ _ hs => .ok (.cons hs .nil)

/-! ### Statements -/

theorem keeps_insert {s s' : Insert} (htable : s'.table = s.table) (hcolumns : s'.columns = s.columns)
    (hsource : s.source.Lifts s'.source l) : Keeps d σ (Command.Agrees σ) l (insert d s) (insert d s') := by
  obtain ⟨table, columns, source⟩ := s
  obtain ⟨table', columns', source'⟩ := s'
  obtain rfl : table' = table := htable
  obtain rfl : columns' = columns := hcolumns
  cases hsource with
  | select h => exact .error _ _
  | rows h =>
    refine .after _ fun collection => .after _ fun fields => ?_
    refine .andThen (Keeps.mapM h fun _ _ _ hr => keeps_document fields hr) fun documents documents' hd => ?_
    have hparts : documents'.map (fun doc => (Term.template doc).fill σ) =
        documents.map (fun doc => (Term.template doc).fill σ) :=
      map_of_forall₂ hd fun doc doc' h => by
        rw [Term.fill, Term.fill]
        exact congrArg Value.document h
    cases hd with
    | nil => exact .error _ _
    | cons _ _ =>
      refine .ok ?_
      rw [Command.Agrees, Command.fill, Command.fill, Command.parts, hparts]
      rfl

theorem keeps_updateCommand {s s' : Update} (htable : s'.table = s.table)
    (hassignments : Each Assignment.Lifts s.assignments s'.assignments l)
    (hrestriction : Each Predicate.Lifts s.restriction.toList s'.restriction.toList m) :
    Keeps d σ (Command.Agrees σ) (l ++ m) (updateCommand d s) (updateCommand d s') := by
  -- the restriction is planned before the assignments
  have hperm : (m ++ l).Perm (l ++ m) := List.perm_append_comm
  refine .perm ?_ hperm
  rw [updateCommand, updateCommand, htable]
  refine .after _ fun collection => .bind (keeps_restriction hrestriction) fun f f' hf => ?_
  refine .andThen (Keeps.mapM hassignments fun _ _ _ h => keeps_update h) fun us us' hus => ?_
  have htexts : us'.map (·.field.text) = us.map (·.field.text) :=
    map_of_forall₂ hus fun _ _ h => congrArg FieldPath.text h.field_eq
  have hfields : us'.map FieldUpdate.field = us.map FieldUpdate.field := map_of_forall₂ hus fun _ _ h => h.field_eq
  have hset : us'.map (fun u => (u.field.text, u.value.fill σ)) = us.map (fun u => (u.field.text, u.value.fill σ)) :=
    map_of_forall₂ hus fun _ _ h => by rw [h.field_eq, h.fill_eq]
  rw [checkUpdates, checkUpdates, htexts, Command.ofUpdates, Command.ofUpdates, hfields]
  refine .after _ fun _ => .after _ fun _ => .ok ?_
  rw [Command.Agrees, Command.fill, Command.fill, Command.parts, Command.parts, hset, hf.fill_eq, hf.pinsId_eq]
  rfl

theorem keeps_delete {s s' : Delete} (htable : s'.table = s.table)
    (hrestriction : Each Predicate.Lifts s.restriction.toList s'.restriction.toList l) :
    Keeps d σ (Command.Agrees σ) l (delete d s) (delete d s') := by
  rw [delete, delete, htable]
  refine .after _ fun collection => .andThen (keeps_restriction hrestriction) fun f f' hf => .ok ?_
  rw [Command.Agrees, Command.fill, Command.fill, Command.parts, Command.parts, hf.fill_eq]
  rfl

theorem keeps_checkClauses {s s' : Select} (hdistinct : s'.isDistinct = s.isDistinct)
    (hgroups : Each Expression.Lifts s.groupBy s'.groupBy l) :
    Keeps d σ Eq l s.checkClauses s'.checkClauses := by
  rw [Select.checkClauses, Select.checkClauses, hdistinct]
  generalize s.groupBy = groups at hgroups
  generalize s'.groupBy = groups' at hgroups
  cases hgroups with
  | nil => exact .refl (fun _ => rfl) _
  | cons _ _ => exact .error _ _

theorem agrees_aggregate (collection : String) {stages stages' : List Stage}
    (h : stages'.map (Stage.fill σ) = stages.map (Stage.fill σ)) :
    Command.Agrees σ (.aggregate collection stages) (.aggregate collection stages') := by
  have hvalues (ss : List Stage) : ss.map (fun s => Value.document (s.fill σ)) =
      (ss.map (Stage.fill σ)).map Value.document := by
    rw [List.map_map]
    rfl
  rw [Command.Agrees, Command.fill, Command.fill, Command.parts, Command.parts, hvalues, hvalues, h]
  rfl

theorem keeps_select {s s' : Select} (h : s.Lifts s' l) : Keeps d σ (Command.Agrees σ) l (select d s) (select d s') := by
  obtain @⟨l₁, l₂, l₃, l₄, l₅, l₆, l₇, table, isDistinct, selections, joins, restriction, groupBy, orderBy, offset,
    fetch⟩ := h
  rw [select, select, table]
  generalize s.joins = js at joins
  generalize s'.joins = js' at joins
  cases joins with
  | cons _ _ => exact .error _ _
  | nil =>
    -- the clauses are planned in another order than they are written
    have hperm : (l₄ ++ (l₃ ++ (l₁ ++ (l₅ ++ (l₆ ++ l₇))))).Perm
        (l₁ ++ ([] ++ (l₃ ++ (l₄ ++ (l₅ ++ (l₆ ++ l₇)))))) := by
      refine List.perm_iff_count.2 fun p => ?_
      simp only [List.count_append, List.count_nil]
      omega
    refine .perm (.bind (keeps_checkClauses isDistinct groupBy) fun _ _ _ => ?_) hperm
    refine .after _ fun collection => .bind (keeps_filterStage restriction) fun f f' hf => ?_
    refine .bind (keeps_projections selections) ?_
    rintro selected _ rfl
    refine .bind (keeps_sortKeys orderBy) ?_
    rintro keys _ rfl
    refine .after _ fun project => .after _ fun sort => ?_
    refine .bind (keeps_countStage .skip offset) fun skip skip' hskip => ?_
    refine .andThen (keeps_countStage .limit fetch) fun limit limit' hlimit => .ok (agrees_aggregate collection ?_)
    have hfill : ∀ a b : Stage, a.Agrees σ b → b.fill σ = a.fill σ := fun _ _ h => h
    simp only [List.map_append, map_of_forall₂ hf hfill, map_of_forall₂ hskip hfill, map_of_forall₂ hlimit hfill]

/-- A lifted statement is planned to a command that is filled alike. -/
theorem keeps_command {s s' : Statement} (h : s.Lifts s' l) :
    Keeps d σ (Command.Agrees σ) l (command d s) (command d s') := by
  cases h with
  | insert table columns source => exact keeps_insert table columns source
  | update table assignments restriction => exact keeps_updateCommand table assignments restriction
  | delete table restriction => exact keeps_delete table restriction
  | select h => exact keeps_select h

end Direct

/-! ### Values -/

theorem Event.map_bound_congr {σ τ : Nat → Value} {es : List Event} (h : ∀ n ∈ positions es, σ n = τ n) :
    es.map (bound σ) = es.map (bound τ) := by
  induction es with
  | nil => rfl
  | cons e rest ih =>
    rw [positions_cons] at h
    have he : e.bound σ = e.bound τ := by
      cases e with
      | placeholder n => exact congrArg Event.scalar (h n (List.mem_append_left _ (List.mem_singleton_self n)))
      | _ => rfl
    rw [List.map_cons, List.map_cons, he, ih fun n hn => h n (List.mem_append_right _ hn)]

/-- The document of a command depends on the values of its parameters alone. -/
theorem Command.fill_congr {σ τ : Nat → Value} {c : Command} (h : c.WellFormed)
    (hc : ∀ n ∈ c.positions, σ n = τ n) : c.fill σ = c.fill τ := by
  -- the same events build both
  have he : c.events.map (Event.bound σ) = c.events.map (Event.bound τ) :=
    Event.map_bound_congr (by rwa [c.positions_events])
  have hs := c.builds σ h
  rw [he, c.builds τ h] at hs
  simp only [Prod.mk.injEq, true_and, Builder.mk.injEq, Option.some.injEq] at hs
  exact hs.symm

theorem valuesAt_of_getElem? {values : List Value} {n : Nat} {v : Value} (h : values[n]? = some v) :
    valuesAt values n = v := by
  rw [valuesAt, List.getD_eq_getElem?_getD, h]
  rfl

theorem valuesAt_append {values : List Value} {n : Nat} (h : n < values.length) (more : List Value) :
    valuesAt (values ++ more) n = valuesAt values n := by
  rw [valuesAt, valuesAt, List.getD_eq_getElem?_getD, List.getElem?_append_left h, List.getD_eq_getElem?_getD]

namespace Session

/-- Literals of a rendered statement may be replaced by parameters, at positions that follow those of the
parameters there are and in any order: with the literals for values the command is the same. -/
theorem render_lifted {d : Dialect} {s s' : Statement} {lifted : Lifting} {parameters literals : List Scalar}
    {doc : Document} (hs : s.Lifts s' lifted) (hl : lifted.Perm (literals.zipIdx parameters.length))
    (h : render d s parameters = .ok doc) : render d s' (parameters ++ literals) = .ok doc := by
  obtain ⟨c, values, hc, hv, hp, rfl⟩ := render_eq_ok.1 h
  have hlen : values.length = parameters.length := length_encodeAll hv
  let σ := valuesAt (values ++ literals.map d.codec.valueOf)
  have hfit : lifted.Fits d σ := by
    rintro ⟨v, n⟩ hp w hw
    obtain ⟨hn, hv⟩ := List.mk_mem_zipIdx_iff_le_and_getElem?_sub.1 (hl.mem_iff.1 hp)
    refine (valuesAt_of_getElem? ?_).trans (Codec.valueOf_eq hw)
    rw [List.getElem?_append_right (by omega), hlen, List.getElem?_map, hv]
    rfl
  obtain ⟨hen, c', hc', hfill⟩ := Direct.keeps_command hs hfit c hc
  have hliterals : ∀ v ∈ literals, ∃ w, d.codec.encode v = .ok w := by
    intro v hv
    obtain ⟨n, hn⟩ := List.mem_iff_getElem?.1 hv
    have hm : (v, parameters.length + n) ∈ literals.zipIdx parameters.length :=
      List.mk_mem_zipIdx_iff_le_and_getElem?_sub.2 ⟨by omega, by rwa [Nat.add_sub_cancel_left]⟩
    exact hen _ (hl.mem_iff.2 hm)
  have hpos : ∀ n, n ∈ c'.positions ↔ n < (values ++ literals.map d.codec.valueOf).length := by
    intro n
    have hlifted : n ∈ lifted.map Prod.snd ↔ n ∈ List.range' parameters.length literals.length := by
      rw [(hl.map Prod.snd).mem_iff, List.zipIdx_map_snd]
    rw [(Direct.positions_command hc').mem_iff, hs.adds.mem_iff, List.mem_append,
      ← (Direct.positions_command hc).mem_iff, hp, hlifted, List.mem_range'_1, List.length_append, List.length_map]
    omega
  have hsame : c.fill (valuesAt values) = c.fill σ :=
    Command.fill_congr (Direct.wellFormed_command hc) fun n hn => (valuesAt_append ((hp n).1 hn) _).symm
  exact render_eq_ok.2 ⟨c', _, hc', encodeAll_append hv (encodeAll_map hliterals), hpos, hsame.trans hfill.symm⟩

end Session

/-- `SELECT age FROM people WHERE age >= 18 OFFSET 1 FETCH ?0` -/
def Select.page : Select where
  table := ⟨"people", none⟩
  selections := [⟨.column ⟨none, "age"⟩, none⟩]
  restriction := some (.comparison .greaterOrEqual (.column ⟨none, "age"⟩) (.literal (.int32 18)))
  offset := some (.literal (.int64 1))
  fetch := some (.parameter 0)

/-- `SELECT age FROM people WHERE age >= ?2 OFFSET ?1 FETCH ?0` -/
def Select.anyPage : Select where
  table := ⟨"people", none⟩
  selections := [⟨.column ⟨none, "age"⟩, none⟩]
  restriction := some (.comparison .greaterOrEqual (.column ⟨none, "age"⟩) (.parameter 2))
  offset := some (.parameter 1)
  fetch := some (.parameter 0)

theorem Session.render_lifted_page : ∃ doc, render .people (.select .page) [.int32 5] = .ok doc ∧
    render .people (.select .anyPage) [.int32 5, .int64 1, .int32 18] = .ok doc := by
  have hselections : Each Selection.Lifts Select.page.selections Select.anyPage.selections [] :=
    .single ⟨rfl, .same _⟩
  have hrestriction : Each Predicate.Lifts Select.page.restriction.toList Select.anyPage.restriction.toList
      [(.int32 18, 2)] := .single (.comparison _ (.same _) (.literal _ 2))
  have hoffset : Each Expression.Lifts Select.page.offset.toList Select.anyPage.offset.toList [(.int64 1, 1)] :=
    .single (.literal _ 1)
  have hfetch : Each Expression.Lifts Select.page.fetch.toList Select.anyPage.fetch.toList [] :=
    .single (.same _)
  have htable : Select.anyPage.table = Select.page.table := rfl
  have hs := Select.Lifts.intro htable rfl hselections .nil hrestriction .nil .nil hoffset hfetch
  have hl : [(Scalar.int32 18, 2), (.int64 1, 1)].Perm
      (List.zipIdx [.int64 1, .int32 18] [Scalar.int32 5].length) := .swap _ _ _
  have hplan : Direct.command .people (.select .page) = .ok (.aggregate "persons"
      [.filter (.comparison ⟨"years"⟩ .gte (.literal (.int32 18))), .project [⟨⟨"years"⟩, true⟩, ⟨⟨"_id"⟩, false⟩],
        .skip (.literal (.int64 1)), .limit (.placeholder 0)]) := rfl
  have hv : encodeAll Dialect.people.codec [.int32 5] = .ok [.int32 5] := rfl
  have hr := render_eq_ok.2 ⟨_, [.int32 5], hplan, hv,
    by simp [Command.positions, Stage.positions, Filter.positions, Term.positions], rfl⟩
  have hlifted := render_lifted (.select hs) hl hr
  exact ⟨_, hr, hlifted⟩

end RelDoc
