import Mathlib.Data.List.Forall2
import Mathlib.Data.List.Perm.Subperm
import RelDoc.Value.Order

/-!
# The equalities of values as relations

On values whose documents have distinct names, the equality of filters and the equality of stored
values are symmetric (`Value.equals_symm`, `Value.same_symm`), and both are transitive on all values
(`Value.equals_trans`, `Value.same_trans`); neither is reflexive, because of not-a-number. Turning the
sides of `Value.compare?` round turns its answer round (`Value.compare?_swap`).

A value without members is equal to another exactly if both have the same atom. Values with members are
compared member by member (`Value.MembersMatch`), so the laws go through by induction on members
(`Value.byMembers`).
-/

namespace RelDoc

namespace Double

theorem equal_iff {a b : Double} : a.equal b = true ↔ ∃ p, a.position? = some p ∧ b.position? = some p := by
  unfold equal compare?
  cases a.position? with
  | none => simp
  | some x =>
    cases b.position? with
    | none => simp
    | some y =>
      rw [decide_eq_true_iff]
      show some (compare x y) = some .eq ↔ _
      rw [Option.some_inj, Std.LawfulEqOrd.compare_eq_iff_eq]
      simp [eq_comm]

theorem compare?_swap (a b : Double) : b.compare? a = (a.compare? b).map Ordering.swap := by
  unfold compare?
  cases a.position? with
  | none => cases b.position? <;> rfl
  | some x =>
    cases b.position? with
    | none => rfl
    | some y => exact congrArg some Std.OrientedOrd.eq_swap

end Double

namespace Dict

variable {α : Type} {d : Dict α} {k : String} {a : α}

theorem mem_of_get?_eq_some (h : get? d k = some a) : (k, a) ∈ d := by
  induction d with
  | nil => simp at h
  | cons p rest ih =>
    obtain ⟨j, b⟩ := p
    rw [get?_cons] at h
    by_cases hj : j = k
    · rw [if_pos hj] at h
      obtain rfl := Option.some.inj h
      rw [hj]
      exact List.mem_cons_self ..
    · rw [if_neg hj] at h
      exact List.mem_cons_of_mem _ (ih h)

theorem get?_of_mem (hn : (keys d).Nodup) (h : (k, a) ∈ d) : get? d k = some a := by
  induction d with
  | nil => simp at h
  | cons p rest ih =>
    obtain ⟨j, b⟩ := p
    rw [keys, List.map_cons, List.nodup_cons] at hn
    rw [get?_cons]
    rcases List.mem_cons.1 h with h | h
    · obtain ⟨rfl, rfl⟩ := Prod.mk.inj h
      simp
    · have hk : k ∈ rest.map Prod.fst := List.mem_map.2 ⟨(k, a), h, rfl⟩
      have hj : j ≠ k := fun hj => hn.1 (hj ▸ hk)
      rw [if_neg hj]
      exact ih hn.2 h

theorem get?_eq_none (h : k ∉ keys d) : get? d k = none := by
  cases hg : get? d k with
  | none => rfl
  | some b => exact absurd (List.mem_map.2 ⟨(k, b), mem_of_get?_eq_some hg, rfl⟩) h

theorem contains_iff : contains d k = true ↔ k ∈ keys d := get?_isSome d k

theorem mem_insert {p : String × α} (h : p ∈ insert d k a) : p = (k, a) ∨ p ∈ d := by
  induction d with
  | nil => exact .inl (List.mem_singleton.1 h)
  | cons q rest ih =>
    obtain ⟨j, b⟩ := q
    rw [insert] at h
    split at h
    · next hj =>
      rcases List.mem_cons.1 h with rfl | h
      · exact .inl (by rw [hj])
      · exact .inr (List.mem_cons_of_mem _ h)
    · rcases List.mem_cons.1 h with rfl | h
      · exact .inr (List.mem_cons_self ..)
      · exact (ih h).imp_right (List.mem_cons_of_mem _)

theorem mem_insertAll {p : String × α} {pairs : Dict α} (h : p ∈ insertAll d pairs) : p ∈ pairs ∨ p ∈ d := by
  induction pairs generalizing d with
  | nil => exact .inr h
  | cons q rest ih =>
    rcases ih h with h | h
    · exact .inl (List.mem_cons_of_mem _ h)
    · rcases mem_insert h with rfl | h
      · exact .inl (List.mem_cons_self ..)
      · exact .inr h

theorem mem_of_mem_ofPairs {p : String × α} {pairs : Dict α} (h : p ∈ ofPairs pairs) : p ∈ pairs :=
  (mem_insertAll h).resolve_right List.not_mem_nil

end Dict

namespace Value

/-! ### Members -/

/-- The values directly inside a value. -/
def members : Value → List Value
  | array items => items
  | document fields | codeWithScope _ fields => fields.map Prod.snd
  | _ => []

theorem sizeOf_member {v w : Value} (h : w ∈ v.members) : sizeOf w < sizeOf v := by
  have ofFields {fields : List (String × Value)} (h : w ∈ fields.map Prod.snd) : sizeOf w < sizeOf fields := by
    obtain ⟨⟨k, u⟩, hp, rfl⟩ := List.mem_map.1 h
    have := List.sizeOf_lt_of_mem hp
    simp only [Prod.mk.sizeOf_spec] at this
    show sizeOf u < _
    omega
  cases v with
  | array items =>
    have := List.sizeOf_lt_of_mem (show w ∈ items from h)
    simp only [array.sizeOf_spec]
    omega
  | document fields =>
    have := ofFields h
    simp only [document.sizeOf_spec]
    omega
  | codeWithScope source scope =>
    have := ofFields h
    simp only [codeWithScope.sizeOf_spec]
    omega
  | _ => simp [members] at h

/-- Induction on members. -/
theorem byMembers {P : Value → Prop} (step : ∀ v, (∀ w ∈ v.members, P w) → P v) (v : Value) : P v :=
  step v fun w hw =>
    have := sizeOf_member hw
    byMembers step w
termination_by sizeOf v

theorem distinctItems_iff {items : List Value} : DistinctItems items ↔ ∀ v ∈ items, v.Distinct := by
  induction items with
  | nil => simp [DistinctItems]
  | cons v rest ih => simp [DistinctItems, ih]

theorem distinctFields_iff {fields : List (String × Value)} :
    DistinctFields fields ↔ ∀ p ∈ fields, p.2.Distinct := by
  induction fields with
  | nil => simp [DistinctFields]
  | cons p rest ih => simp [DistinctFields, ih]

theorem Distinct.keys {fields : Document} (h : (document fields).Distinct) : (Dict.keys fields).Nodup := by
  rw [Distinct] at h
  exact h.1

theorem Distinct.field {fields : Document} (h : (document fields).Distinct) :
    ∀ p ∈ fields, p.2.Distinct := by
  rw [Distinct, distinctFields_iff] at h
  exact h.2

theorem distinct_document {fields : Document} (hk : (Dict.keys fields).Nodup) (hf : ∀ p ∈ fields, p.2.Distinct) :
    (document fields).Distinct := by
  rw [Distinct, distinctFields_iff]
  exact ⟨hk, hf⟩

theorem Distinct.member {v w : Value} (h : v.Distinct) (hw : w ∈ v.members) : w.Distinct := by
  cases v with
  | array items =>
    rw [Distinct, distinctItems_iff] at h
    exact h w hw
  | document fields | codeWithScope source fields =>
    rw [Distinct, distinctFields_iff] at h
    obtain ⟨p, hp, rfl⟩ := List.mem_map.1 hw
    exact h.2 p hp
  | _ => simp [members] at hw

end Value

/-! ### Documents regardless of order -/

/-- Equally many fields, and under each name of the first document a related value in the second. -/
def FieldsMatch (R : Value → Value → Bool) (as bs : Document) : Prop :=
  as.length = bs.length ∧ ∀ p ∈ as, ∃ b, Dict.get? bs p.1 = some b ∧ R p.2 b = true

namespace FieldsMatch

variable {R : Value → Value → Bool} {as bs cs : Document}

theorem symm (ha : (Dict.keys as).Nodup) (hb : (Dict.keys bs).Nodup)
    (hR : ∀ p ∈ as, ∀ q ∈ bs, R p.2 q.2 = true → R q.2 p.2 = true) (h : FieldsMatch R as bs) :
    FieldsMatch R bs as := by
  have hsub : Dict.keys as ⊆ Dict.keys bs := fun k hk => by
    obtain ⟨p, hp, rfl⟩ := List.mem_map.1 hk
    obtain ⟨b, hg, -⟩ := h.2 p hp
    exact List.mem_map.2 ⟨(p.1, b), Dict.mem_of_get?_eq_some hg, rfl⟩
  -- as many names, all of them among those of `bs`: the names of `bs` are those of `as`
  have hperm : (Dict.keys as).Perm (Dict.keys bs) := by
    refine (ha.subperm hsub).perm_of_length_le ?_
    simp only [Dict.keys, List.length_map, h.1, Nat.le_refl]
  refine ⟨h.1.symm, fun q hq => ?_⟩
  have hk : q.1 ∈ Dict.keys as := hperm.mem_iff.2 (List.mem_map_of_mem (f := Prod.fst) hq)
  obtain ⟨p, hp, hpq⟩ := List.mem_map.1 hk
  obtain ⟨b, hg, hr⟩ := h.2 p hp
  have hqb : q.2 = b := by
    rw [hpq, Dict.get?_of_mem hb hq] at hg
    exact Option.some.inj hg
  refine ⟨p.2, by rw [← hpq]; exact Dict.get?_of_mem ha hp, hR p hp q hq ?_⟩
  rw [hqb]
  exact hr

theorem trans (hR : ∀ p ∈ as, ∀ b c, R p.2 b = true → R b c = true → R p.2 c = true)
    (h : FieldsMatch R as bs) (h' : FieldsMatch R bs cs) : FieldsMatch R as cs := by
  refine ⟨h.1.trans h'.1, fun p hp => ?_⟩
  obtain ⟨b, hb, hr⟩ := h.2 p hp
  obtain ⟨c, hc, hr'⟩ := h'.2 _ (Dict.mem_of_get?_eq_some hb)
  exact ⟨c, hc, hR p hp b c hr hr'⟩

end FieldsMatch

namespace Value

/-- Item by item, field by field, or both the source and the scope: `R` relates the members, `S` those of
a scope. -/
inductive MembersMatch (R S : Value → Value → Bool) : Value → Value → Prop where
  | items {as bs : List Value} (h : List.Forall₂ (fun a b => R a b = true) as bs) :
    MembersMatch R S (array as) (array bs)
  | fields {as bs : Document} (h : FieldsMatch R as bs) : MembersMatch R S (document as) (document bs)
  | scope {source : String} {as bs : Document} (h : FieldsMatch S as bs) :
    MembersMatch R S (codeWithScope source as) (codeWithScope source bs)

namespace MembersMatch

variable {R S : Value → Value → Bool} {a b c : Value}

theorem items_symm {as bs : List Value} (hR : ∀ a ∈ as, ∀ b ∈ bs, R a b = true → R b a = true)
    (h : List.Forall₂ (fun a b => R a b = true) as bs) : List.Forall₂ (fun a b => R a b = true) bs as := by
  induction h with
  | nil => exact .nil
  | @cons a b as bs hab _ ih =>
    refine .cons (hR a (List.mem_cons_self ..) b (List.mem_cons_self ..) hab) (ih fun x hx y hy => ?_)
    exact hR x (List.mem_cons_of_mem _ hx) y (List.mem_cons_of_mem _ hy)

theorem items_trans {as bs cs : List Value} (hR : ∀ a ∈ as, ∀ b c, R a b = true → R b c = true → R a c = true)
    (h : List.Forall₂ (fun a b => R a b = true) as bs) (h' : List.Forall₂ (fun a b => R a b = true) bs cs) :
    List.Forall₂ (fun a b => R a b = true) as cs := by
  induction h generalizing cs with
  | nil => exact h'
  | @cons a b as bs hab _ ih =>
    cases h' with
    | cons hbc hrest =>
      refine .cons (hR a (List.mem_cons_self ..) _ _ hab hbc) (ih (fun x hx => ?_) hrest)
      exact hR x (List.mem_cons_of_mem _ hx)

theorem symm (ha : a.Distinct) (hb : b.Distinct)
    (hR : ∀ v ∈ a.members, ∀ w ∈ b.members, R v w = true → R w v = true)
    (hS : ∀ v ∈ a.members, ∀ w ∈ b.members, S v w = true → S w v = true) (h : MembersMatch R S a b) :
    MembersMatch R S b a := by
  have inFields {fields : Document} {p : String × Value} (hp : p ∈ fields) : p.2 ∈ fields.map Prod.snd :=
    List.mem_map.2 ⟨p, hp, rfl⟩
  cases h with
  | items h => exact .items (items_symm hR h)
  | fields h => exact .fields (h.symm ha.keys hb.keys fun p hp q hq => hR _ (inFields hp) _ (inFields hq))
  | scope h =>
    rw [Distinct] at ha hb
    exact .scope (h.symm ha.1 hb.1 fun p hp q hq => hS _ (inFields hp) _ (inFields hq))

theorem trans (hR : ∀ v ∈ a.members, ∀ w u, R v w = true → R w u = true → R v u = true)
    (hS : ∀ v ∈ a.members, ∀ w u, S v w = true → S w u = true → S v u = true) (h : MembersMatch R S a b)
    (h' : MembersMatch R S b c) : MembersMatch R S a c := by
  have inFields {fields : Document} {p : String × Value} (hp : p ∈ fields) : p.2 ∈ fields.map Prod.snd :=
    List.mem_map.2 ⟨p, hp, rfl⟩
  cases h with
  | items h =>
    cases h' with
    | items h' => exact .items (items_trans hR h h')
  | fields h =>
    cases h' with
    | fields h' => exact .fields (h.trans (fun p hp => hR _ (inFields hp)) h')
  | scope h =>
    cases h' with
    | scope h' => exact .scope (h.trans (fun p hp => hS _ (inFields hp)) h')

end MembersMatch

theorem sameItems_iff {as bs : List Value} :
    sameItems as bs = true ↔ List.Forall₂ (fun a b => a.same b = true) as bs := by
  induction as generalizing bs with
  | nil => cases bs <;> simp [sameItems]
  | cons a as ih => cases bs <;> simp [sameItems, ih]

theorem equalsItems_iff {as bs : List Value} :
    equalsItems as bs = true ↔ List.Forall₂ (fun a b => a.equals b = true) as bs := by
  induction as generalizing bs with
  | nil => cases bs <;> simp [equalsItems]
  | cons a as ih => cases bs <;> simp [equalsItems, ih]

theorem sameFields_iff {as bs : Document} :
    sameFields as bs = true ↔ ∀ p ∈ as, ∃ b, Dict.get? bs p.1 = some b ∧ p.2.same b = true := by
  induction as with
  | nil => simp [sameFields]
  | cons p rest ih =>
    rw [sameFields, Bool.and_eq_true, ih, List.forall_mem_cons]
    refine and_congr_left fun _ => ?_
    cases Dict.get? bs p.1 <;> simp

theorem equalsFields_iff {as bs : Document} :
    equalsFields as bs = true ↔ ∀ p ∈ as, ∃ b, Dict.get? bs p.1 = some b ∧ p.2.equals b = true := by
  induction as with
  | nil => simp [equalsFields]
  | cons p rest ih =>
    rw [equalsFields, Bool.and_eq_true, ih, List.forall_mem_cons]
    refine and_congr_left fun _ => ?_
    cases Dict.get? bs p.1 <;> simp

/-! ### Atoms -/

/-- Does the value have members? -/
def isNested : Value → Bool
  | array _ | document _ | codeWithScope _ _ => true
  | _ => false

/-- What an equality sees of a value without members. -/
inductive Atom where
  | missing
  | number (position : Int)
  | bytes (data : List UInt8)
  | other (v : Value)

/-- The atom that stored values are compared by. -/
def storedAtom? : Value → Option Atom
  | array _ | document _ | codeWithScope _ _ => none
  | double d => d.position?.map .number
  | v => some (.other v)

/-- The atom that filters compare values by. -/
def filterAtom? : Value → Option Atom
  | array _ | document _ | codeWithScope _ _ => none
  | null | undefined => some .missing
  | int32 n | int64 n => (Double.ofInt n.toInt).position?.map .number
  | double d => d.position?.map .number
  | binary _ data => some (.bytes data)
  | v => some (.other v)

theorem same_leaf {a b : Value} (ha : a.isNested = false) :
    a.same b = true ↔ ∃ x, b.storedAtom? = some x ∧ a.storedAtom? = some x := by
  cases a with
  | array | document | codeWithScope => simp [isNested] at ha
  | double d =>
    cases b with
    | double e =>
      rw [same, Double.equal_iff]
      simp [storedAtom?, and_comm]
    | _ => simp [same, storedAtom?]
  | _ => cases b <;> simp [same, storedAtom?]

theorem equals_leaf {a b : Value} (ha : a.isNested = false) :
    a.equals b = true ↔ ∃ x, b.filterAtom? = some x ∧ a.filterAtom? = some x := by
  have numeric (d : Double) (b : Value) : (b.number?.map d.equal).getD false = true ↔
      ∃ x, b.filterAtom? = some x ∧ d.position?.map Atom.number = some x := by
    cases b <;> simp [number?, filterAtom?, Double.equal_iff, and_comm]
  cases a with
  | array | document | codeWithScope => simp [isNested] at ha
  | int32 | int64 | double =>
    rw [equals, filterAtom?]
    exact numeric ..
  | null | undefined => cases b <;> simp [equals, filterAtom?, isMissing]
  | _ => cases b <;> simp [equals, filterAtom?]

theorem same_nested {a b : Value} (ha : a.isNested = true) : a.same b = true ↔ MembersMatch same same a b := by
  cases a with
  | array as =>
    cases b with
    | array bs =>
      rw [same, sameItems_iff]
      exact ⟨.items, fun h => by cases h with | items h => exact h⟩
    | _ => exact ⟨fun h => by simp [same] at h, nofun⟩
  | document as =>
    cases b with
    | document bs =>
      rw [same, Bool.and_eq_true, decide_eq_true_iff, sameFields_iff]
      exact ⟨.fields, fun h => by cases h with | fields h => exact h⟩
    | _ => exact ⟨fun h => by simp [same] at h, nofun⟩
  | codeWithScope source as =>
    cases b with
    | codeWithScope other bs =>
      rw [same, Bool.and_eq_true, Bool.and_eq_true, decide_eq_true_iff, decide_eq_true_iff, sameFields_iff]
      constructor
      · rintro ⟨rfl, h⟩
        exact .scope h
      · intro h
        cases h with
        | scope h => exact ⟨rfl, h⟩
    | _ => exact ⟨fun h => by simp [same] at h, nofun⟩
  | _ => simp [isNested] at ha

theorem equals_nested {a b : Value} (ha : a.isNested = true) :
    a.equals b = true ↔ MembersMatch equals same a b := by
  cases a with
  | array as =>
    cases b with
    | array bs =>
      rw [equals, equalsItems_iff]
      exact ⟨.items, fun h => by cases h with | items h => exact h⟩
    | _ => exact ⟨fun h => by simp [equals] at h, nofun⟩
  | document as =>
    cases b with
    | document bs =>
      rw [equals, Bool.and_eq_true, decide_eq_true_iff, equalsFields_iff]
      exact ⟨.fields, fun h => by cases h with | fields h => exact h⟩
    | _ => exact ⟨fun h => by simp [equals] at h, nofun⟩
  | codeWithScope source as =>
    cases b with
    | codeWithScope other bs =>
      rw [equals, same_nested rfl]
      exact ⟨fun h => by cases h with | scope h => exact .scope h,
        fun h => by cases h with | scope h => exact .scope h⟩
    | _ => exact ⟨fun h => by simp [equals] at h, nofun⟩
  | _ => simp [isNested] at ha

/-! ### The laws -/

variable {a b c : Value}

theorem same_symm (ha : a.Distinct) (hb : b.Distinct) (h : a.same b = true) : b.same a = true := by
  induction a using byMembers generalizing b with
  | step a ih =>
    cases hn : a.isNested with
    | true =>
      have hm := (same_nested hn).1 h
      have hs := hm.symm ha hb (fun v hv w hw => ih v hv (ha.member hv) (hb.member hw))
        (fun v hv w hw => ih v hv (ha.member hv) (hb.member hw))
      refine (same_nested ?_).2 hs
      cases hm <;> rfl
    | false =>
      obtain ⟨x, hx, hy⟩ := (same_leaf hn).1 h
      refine (same_leaf ?_).2 ⟨x, hy, hx⟩
      cases b <;> first | rfl | simp [storedAtom?] at hx

theorem same_trans (h : a.same b = true) (h' : b.same c = true) : a.same c = true := by
  induction a using byMembers generalizing b c with
  | step a ih =>
    cases hn : a.isNested with
    | true =>
      have hm := (same_nested hn).1 h
      have hb : b.isNested = true := by cases hm <;> rfl
      have step (v : Value) (hv : v ∈ a.members) (w u : Value) := ih v hv (b := w) (c := u)
      exact (same_nested hn).2 (hm.trans step step ((same_nested hb).1 h'))
    | false =>
      obtain ⟨x, hx, hy⟩ := (same_leaf hn).1 h
      have hb : b.isNested = false := by cases b <;> first | rfl | simp [storedAtom?] at hx
      obtain ⟨y, hz, hw⟩ := (same_leaf hb).1 h'
      obtain rfl := Option.some.inj (hx.symm.trans hw)
      exact (same_leaf hn).2 ⟨x, hz, hy⟩

theorem equals_symm (ha : a.Distinct) (hb : b.Distinct) (h : a.equals b = true) : b.equals a = true := by
  induction a using byMembers generalizing b with
  | step a ih =>
    cases hn : a.isNested with
    | true =>
      have hm := (equals_nested hn).1 h
      have hs := hm.symm ha hb (fun v hv w hw => ih v hv (ha.member hv) (hb.member hw))
        (fun v hv w hw => same_symm (ha.member hv) (hb.member hw))
      refine (equals_nested ?_).2 hs
      cases hm <;> rfl
    | false =>
      obtain ⟨x, hx, hy⟩ := (equals_leaf hn).1 h
      refine (equals_leaf ?_).2 ⟨x, hy, hx⟩
      cases b <;> first | rfl | simp [filterAtom?] at hx

theorem equals_trans (h : a.equals b = true) (h' : b.equals c = true) : a.equals c = true := by
  induction a using byMembers generalizing b c with
  | step a ih =>
    cases hn : a.isNested with
    | true =>
      have hm := (equals_nested hn).1 h
      have hb : b.isNested = true := by cases hm <;> rfl
      have step (v : Value) (hv : v ∈ a.members) (w u : Value) := ih v hv (b := w) (c := u)
      refine (equals_nested hn).2 (hm.trans step (fun _ _ _ _ => same_trans) ((equals_nested hb).1 h'))
    | false =>
      obtain ⟨x, hx, hy⟩ := (equals_leaf hn).1 h
      have hb : b.isNested = false := by cases b <;> first | rfl | simp [filterAtom?] at hx
      obtain ⟨y, hz, hw⟩ := (equals_leaf hb).1 h'
      obtain rfl := Option.some.inj (hx.symm.trans hw)
      exact (equals_leaf hn).2 ⟨x, hz, hy⟩

theorem equals_comm (ha : a.Distinct) (hb : b.Distinct) : a.equals b = b.equals a :=
  Bool.eq_iff_iff.2 ⟨equals_symm ha hb, equals_symm hb ha⟩

theorem compareBytes_swap (as bs : List UInt8) : compareBytes bs as = (compareBytes as bs).swap := by
  induction as generalizing bs with
  | nil => cases bs <;> rfl
  | cons a as ih =>
    cases bs with
    | nil => rfl
    | cons b bs => rw [compareBytes, compareBytes, ih, Ordering.swap_then, ← Std.OrientedOrd.eq_swap]

theorem compare?_swap (a b : Value) : b.compare? a = (a.compare? b).map Ordering.swap := by
  have turned (boolean : ∀ x y, a = .boolean x → b = .boolean y → False)
      (string : ∀ x y, a = .string x → b = .string y → False)
      (dateTime : ∀ x y, a = .dateTime x → b = .dateTime y → False)
      (objectId : ∀ x y, a = .objectId x → b = .objectId y → False)
      (binary : ∀ s x t y, a = .binary s x → b = .binary t y → False) :=
    compare?.eq_6 b a (fun x y hb ha => boolean y x ha hb) (fun x y hb ha => string y x ha hb)
      (fun x y hb ha => dateTime y x ha hb) (fun x y hb ha => objectId y x ha hb)
      (fun s x t y hb ha => binary t y s x ha hb)
  fun_cases compare? a b with
  | case1 x y => exact congrArg some Std.OrientedOrd.eq_swap
  | case2 x y => exact congrArg some Std.OrientedOrd.eq_swap
  | case3 x y => exact congrArg some Std.OrientedOrd.eq_swap
  | case4 x y => exact congrArg some (compareBytes_swap ..)
  | case5 _ x _ y => exact congrArg some (compareBytes_swap ..)
  | case6 =>
    rw [turned ‹_› ‹_› ‹_› ‹_› ‹_›, Bool.and_comm, if_pos ‹_›]
    rfl
  | case7 =>
    rw [turned ‹_› ‹_› ‹_› ‹_› ‹_›, Bool.and_comm, if_neg ‹_›, ‹a.number? = _›, ‹b.number? = _›]
    exact Double.compare?_swap ..
  | case8 =>
    rw [turned ‹_› ‹_› ‹_› ‹_› ‹_›, Bool.and_comm, if_neg ‹_›]
    cases hx : a.number? <;> cases hy : b.number? <;> first | rfl | simp_all

end Value
end RelDoc
