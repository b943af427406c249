import RelDoc.Proofs.Equivalence
import RelDoc.Store.Pipeline

/-!
# How values compare

Sorted rows and filters compare values by one rule, `Value.compare?`, and differ in what they make of two values
that it has no answer for.

Sorting compares ranks first and takes two values of one rank for equal where the rule is silent. On values other
than not-a-number that is the order of places, which is total (`Value.sortOrder_eq_place`): the types without an
order are ranks of their own, apart from rank ten, where nothing has one. A not-a-number however is equal to every
number, and two numbers to either side of it break the laws of an order (`Value.sortOrder_lawful_iff`).

Filters ask `Value.compare?` in `$gt`, `$gte`, `$lt` and `$lte`, and `Value.equals` in `$eq` and `$ne`. The two agree on
the types that have an order (`Value.compare?_eq_eq_iff`). An array, a document or a value of a rarer type may equal
another and is still neither greater nor less than or equal to it (`QueryOperator.coherent_iff`).
-/

namespace RelDoc

/-! ### Places of numbers -/

namespace Double

theorem roundShift_le {n k shift : Nat} (h : n < Nat.pow 2 (k + shift)) : roundShift n shift ≤ Nat.pow 2 k := by
  have hq : n / Nat.pow 2 shift < Nat.pow 2 k := by
    simp only [Nat.pow_eq] at h ⊢
    rwa [Nat.div_lt_iff_lt_mul (Nat.two_pow_pos _), ← Nat.pow_add]
  unfold roundShift
  simp only
  split <;> omega

theorem magnitudeOfNat_le {n : Nat} (h : n < Nat.pow 2 64) : magnitudeOfNat n ≤ infinite := by
  unfold magnitudeOfNat
  split
  case isTrue => exact Nat.zero_le _
  case isFalse hn =>
    have htop : n.log2 < 64 := (Nat.log2_lt hn).2 h
    have hlog : n < 2 ^ (n.log2 + 1) := Nat.lt_log2_self
    generalize n.log2 = top at htop hlog
    -- a significand of 53 bits, rounded, is at most the next power of two
    have hs : (if top ≤ 52 then n * Nat.pow 2 (52 - top) else roundShift n (top - 52)) ≤ Nat.pow 2 53 := by
      split
      case isTrue hle =>
        calc n * 2 ^ (52 - top) ≤ 2 ^ (top + 1) * 2 ^ (52 - top) := Nat.mul_le_mul_right _ (Nat.le_of_lt hlog)
          _ = 2 ^ 53 := by rw [← Nat.pow_add, show top + 1 + (52 - top) = 53 by omega]
      case isFalse hgt =>
        exact roundShift_le (by rwa [show 53 + (top - 52) = top + 1 by omega])
    simp only [Nat.pow_eq, infinite] at hs ⊢
    omega

/-- The double nearest to an integer is a number. -/
theorem isNaN_ofInt {n : Int} (h : n.natAbs < Nat.pow 2 64) : (ofInt n).isNaN = false := by
  have hm := magnitudeOfNat_le h
  rw [isNaN, magnitude, ofInt, decide_eq_false_iff_not]
  simp only [UInt64.toNat_ofNat', Nat.pow_eq, infinite] at hm ⊢
  split <;> omega

/-- The place of a number among the numbers; what is no number is put where zero is. -/
def position (d : Double) : Int := d.position?.getD 0

theorem compare?_of_isNaN {a b : Double} (h : a.isNaN = true ∨ b.isNaN = true) : a.compare? b = none := by
  unfold compare?
  rcases h with h | h
  · rw [show a.position? = none from if_pos h]
  · rw [show b.position? = none from if_pos h]
    cases a.position? <;> rfl

theorem compare?_eq_compare {a b : Double} (ha : a.isNaN = false) (hb : b.isNaN = false) :
    a.compare? b = some (compare a.position b.position) := by
  simp [compare?, position, position?, ha, hb]

end Double

namespace Value

/-! ### Values of one rank -/

/-- A double that is no number. -/
def isNaN : Value → Bool
  | double d => d.isNaN
  | _ => false

/-- Is the value of a type that has an order? -/
def isOrdered : Value → Bool
  | array _ | document _ | regex _ _ | dbPointer _ _ | code _ | codeWithScope _ _ | timestamp _ _ | symbol _
  | decimal _ | minKey | maxKey => false
  | _ => true

/-- Two values of one rank: of one type that has an order, or of types without. -/
inductive Alike : Value → Value → Prop
  | missing {a b : Value} (ha : a.isMissing = true) (hb : b.isMissing = true) : Alike a b
  | numbers {a b : Value} {x y : Double} (hx : a.number? = some x) (hy : b.number? = some y) : Alike a b
  | booleans (x y : Bool) : Alike (boolean x) (boolean y)
  | strings (x y : String) : Alike (string x) (string y)
  | dates (x y : Int64) : Alike (dateTime x) (dateTime y)
  | objectIds (x y : ObjectId) : Alike (objectId x) (objectId y)
  | bytes (s t : UInt8) (x y : List UInt8) : Alike (binary s x) (binary t y)
  | unordered {a b : Value} (ha : a.isOrdered = false) (hb : b.isOrdered = false) : Alike a b

variable {a b c : Value}

theorem alike_of_rank_eq (h : a.rank = b.rank) : Alike a b := by
  cases a <;> cases b <;>
    first
    | (cases h; done)
    | exact .missing rfl rfl
    | exact .numbers rfl rfl
    | exact .booleans ..
    | exact .strings ..
    | exact .dates ..
    | exact .objectIds ..
    | exact .bytes ..
    | exact .unordered rfl rfl

theorem eq_of_isMissing (h : a.isMissing = true) : a = null ∨ a = undefined := by
  cases a with
  | null => exact .inl rfl
  | undefined => exact .inr rfl
  | _ => cases h

theorem eq_of_number {x : Double} (h : a.number? = some x) :
    (∃ n, a = int32 n ∧ x = Double.ofInt n.toInt) ∨ (∃ n, a = int64 n ∧ x = Double.ofInt n.toInt) ∨ a = double x := by
  cases a with
  | int32 n => exact .inl ⟨n, rfl, (Option.some.inj h).symm⟩
  | int64 n => exact .inr (.inl ⟨n, rfl, (Option.some.inj h).symm⟩)
  | double d => exact .inr (.inr (congrArg double (Option.some.inj h)))
  | _ => cases h

theorem number_of_rank (h : a.rank = 2) : ∃ x, a.number? = some x := by
  cases a with
  | int32 | int64 | double => exact ⟨_, rfl⟩
  | _ => cases h

theorem rank_of_number {x : Double} (h : a.number? = some x) : a.rank = 2 := by
  obtain ⟨n, rfl, -⟩ | ⟨n, rfl, -⟩ | rfl := eq_of_number h <;> rfl

theorem rank_of_isNaN (h : a.isNaN = true) : a.rank = 2 := by
  cases a with
  | double => rfl
  | _ => cases h

/-- Integers are numbers, also as doubles. -/
theorem isNaN_of_number {x : Double} (h : a.number? = some x) : x.isNaN = a.isNaN := by
  obtain ⟨n, rfl, rfl⟩ | ⟨n, rfl, rfl⟩ | rfl := eq_of_number h
  case inr.inr => rfl
  all_goals
    have hlow := n.le_toInt
    have hhigh := n.toInt_lt
    refine Double.isNaN_ofInt ?_
    rw [Nat.pow_eq]
    omega

/-! ### What the order sees of two values -/

theorem compareBytes_eq_compare (as bs : List UInt8) : compareBytes as bs = compare as bs := by
  induction as generalizing bs with
  | nil => cases bs <;> rfl
  | cons a as ih =>
    cases bs with
    | nil => rfl
    | cons b bs => rw [compareBytes, ih, List.compare_cons_cons]

theorem compare?_of_isMissing (ha : a.isMissing = true) (hb : b.isMissing = true) : a.compare? b = some .eq := by
  rcases eq_of_isMissing ha with rfl | rfl <;> rcases eq_of_isMissing hb with rfl | rfl <;> rfl

theorem compare?_of_number {x y : Double} (hx : a.number? = some x) (hy : b.number? = some y) :
    a.compare? b = x.compare? y := by
  obtain ⟨n, rfl, rfl⟩ | ⟨n, rfl, rfl⟩ | rfl := eq_of_number hx <;>
    obtain ⟨m, rfl, rfl⟩ | ⟨m, rfl, rfl⟩ | rfl := eq_of_number hy <;> rfl

theorem compare?_of_unordered (ha : a.isOrdered = false) : a.compare? b = none := by
  cases a <;> first | (cases ha; done) | cases b <;> rfl

/-- Values of different ranks have no order. -/
theorem compare?_of_rank_ne (h : a.rank ≠ b.rank) : a.compare? b = none := by
  cases a <;> cases b <;> first | rfl | exact absurd rfl h

theorem compare?_of_isNaN (h : a.isNaN = true ∨ b.isNaN = true) : a.compare? b = none := by
  by_cases hr : a.rank = b.rank
  · have h2 : a.rank = 2 ∧ b.rank = 2 := by
      rcases h with h | h
      · exact ⟨rank_of_isNaN h, hr ▸ rank_of_isNaN h⟩
      · exact ⟨hr ▸ rank_of_isNaN h, rank_of_isNaN h⟩
    obtain ⟨x, hx⟩ := number_of_rank h2.1
    obtain ⟨y, hy⟩ := number_of_rank h2.2
    rw [compare?_of_number hx hy]
    rw [← isNaN_of_number hx, ← isNaN_of_number hy] at h
    exact Double.compare?_of_isNaN h
  · exact compare?_of_rank_ne hr

/-! ### The order of sorted rows -/

theorem sortOrder_swap (a b : Value) : b.sortOrder a = (a.sortOrder b).swap := by
  rw [sortOrder, sortOrder, Ordering.swap_then, compare?_swap a b, ← Std.OrientedOrd.eq_swap]
  cases a.compare? b <;> rfl

/-- A smaller rank comes first. -/
theorem rank_le_of_sortOrder (h : a.sortOrder b ≠ .gt) : a.rank ≤ b.rank := by
  refine Nat.not_lt.1 fun hlt => h ?_
  rw [sortOrder, Nat.compare_eq_gt.2 hlt]
  rfl

theorem rank_eq_of_sortOrder (h : a.sortOrder b = .eq) : a.rank = b.rank :=
  Nat.compare_eq_eq.1 (Ordering.then_eq_eq.1 h).1

theorem sortOrder_of_rank_eq (h : a.rank = b.rank) : a.sortOrder b = (a.compare? b).getD .eq := by
  rw [sortOrder, Nat.compare_eq_eq.2 h]
  rfl

/-- A not-a-number is placed by its rank alone. -/
theorem sortOrder_of_isNaN (h : a.isNaN = true ∨ b.isNaN = true) : a.sortOrder b = compare a.rank b.rank := by
  rw [sortOrder, compare?_of_isNaN h]
  exact Ordering.then_eq ..

/-- Where a value stands among all values: its rank, and what tells it from others of its rank if they have an
order. -/
structure Place where
  rank : Nat
  number : Int := 0
  text : String := ""
  bytes : List UInt8 := []

instance : Ord Place :=
  ⟨compareLex (compareOn Place.rank)
    (compareLex (compareOn Place.number) (compareLex (compareOn Place.text) (compareOn Place.bytes)))⟩

instance : Std.TransOrd Place :=
  inferInstanceAs (Std.TransCmp (compareLex (compareOn Place.rank)
    (compareLex (compareOn Place.number) (compareLex (compareOn Place.text) (compareOn Place.bytes)))))

theorem compare_place (p q : Place) : compare p q = (compare p.rank q.rank).then
    ((compare p.number q.number).then ((compare p.text q.text).then (compare p.bytes q.bytes))) := rfl

def place (v : Value) : Place :=
  match v with
  | boolean b => { rank := 8, number := if b then 1 else 0 }
  | int32 n => { rank := 2, number := (Double.ofInt n.toInt).position }
  | int64 n => { rank := 2, number := (Double.ofInt n.toInt).position }
  | double d => { rank := 2, number := d.position }
  | string s => { rank := 3, text := s }
  | dateTime t => { rank := 9, number := t.toInt }
  | objectId id => { rank := 7, bytes := id.data }
  | binary _ data => { rank := 6, bytes := data }
  | v => { rank := v.rank }

theorem rank_place (v : Value) : v.place.rank = v.rank := by cases v <;> rfl

theorem place_of_isMissing (h : a.isMissing = true) : a.place = { rank := 1 } := by
  rcases eq_of_isMissing h with rfl | rfl <;> rfl

theorem place_of_number {x : Double} (h : a.number? = some x) : a.place = { rank := 2, number := x.position } := by
  obtain ⟨n, rfl, rfl⟩ | ⟨n, rfl, rfl⟩ | rfl := eq_of_number h <;> rfl

theorem place_of_unordered (h : a.isOrdered = false) : a.place = { rank := a.rank } := by
  cases a <;> first | rfl | cases h

/-- But for not-a-number, sorted rows have the order of places. -/
theorem sortOrder_eq_place (ha : a.isNaN = false) (hb : b.isNaN = false) :
    a.sortOrder b = compare a.place b.place := by
  by_cases hr : a.rank = b.rank
  case neg =>
    -- ranks decide, whatever the rest of the places
    rw [sortOrder, compare_place, rank_place, rank_place]
    cases hc : compare a.rank b.rank with
    | lt | gt => rfl
    | eq => exact absurd (Nat.compare_eq_eq.1 hc) hr
  case pos =>
    rw [sortOrder_of_rank_eq hr]
    cases alike_of_rank_eq hr with
    | missing ha hb =>
      rw [compare?_of_isMissing ha hb, place_of_isMissing ha, place_of_isMissing hb]
      rfl
    | numbers hx hy =>
      have hx' := (isNaN_of_number hx).trans ha
      have hy' := (isNaN_of_number hy).trans hb
      rw [compare?_of_number hx hy, Double.compare?_eq_compare hx' hy', place_of_number hx, place_of_number hy]
      simp [compare_place]
    | booleans x y => cases x <;> cases y <;> rfl
    | strings x y => simp [compare?, place, compare_place]
    | dates x y => simp [compare?, place, compare_place]
    | objectIds x y => simp [compare?, place, compare_place, compareBytes_eq_compare]
    | bytes s t x y => simp [compare?, place, compare_place, compareBytes_eq_compare]
    | unordered ha hb =>
      rw [compare?_of_unordered ha, place_of_unordered ha, place_of_unordered hb, hr]
      exact Std.ReflOrd.compare_self.symm

/-! ### When the order of sorted rows is one -/

/-- The first of two numbers is smaller. -/
def Less (a b : Value) : Prop := ∃ x y, a.number? = some x ∧ b.number? = some y ∧ x.compare? y = some .lt

/-- Two numbers of which one is smaller. -/
def Differ (a b : Value) : Prop := a.Less b ∨ b.Less a

theorem less_iff : a.Less b ↔ a.rank = 2 ∧ b.rank = 2 ∧ a.sortOrder b = .lt := by
  constructor
  · rintro ⟨x, y, hx, hy, hlt⟩
    have ha := rank_of_number hx
    have hb := rank_of_number hy
    refine ⟨ha, hb, ?_⟩
    rw [sortOrder_of_rank_eq (ha.trans hb.symm), compare?_of_number hx hy, hlt]
    rfl
  · rintro ⟨ha, hb, hlt⟩
    obtain ⟨x, hx⟩ := number_of_rank ha
    obtain ⟨y, hy⟩ := number_of_rank hb
    rw [sortOrder_of_rank_eq (ha.trans hb.symm), compare?_of_number hx hy] at hlt
    refine ⟨x, y, hx, hy, ?_⟩
    cases hc : x.compare? y with
    | none => simp [hc] at hlt
    | some o =>
      rw [hc] at hlt
      exact congrArg some hlt

theorem differ_iff : a.Differ b ↔ a.rank = 2 ∧ b.rank = 2 ∧ a.sortOrder b ≠ .eq := by
  rw [Differ, less_iff, less_iff, sortOrder_swap a b]
  cases a.sortOrder b <;> simp [and_comm]

/-- Nothing is smaller or greater than a not-a-number. -/
theorem not_differ_of_isNaN (h : a.isNaN = true ∨ b.isNaN = true) : ¬ a.Differ b := by
  rw [differ_iff, sortOrder_of_isNaN h]
  rintro ⟨ha, hb, hne⟩
  exact hne (by rw [ha, hb]; rfl)

/-- Three values that are not out of order two by two are in order, unless the middle one is a not-a-number between
numbers that fall. -/
theorem sortOrder_trans_iff (a b c : Value) :
    (a.sortOrder b ≠ .gt → b.sortOrder c ≠ .gt → a.sortOrder c ≠ .gt) ↔ ¬ (b.isNaN = true ∧ c.Less a) := by
  constructor
  · rintro hlaw ⟨hb, hless⟩
    obtain ⟨hc, ha, hlt⟩ := less_iff.1 hless
    have hb2 := rank_of_isNaN hb
    refine hlaw ?_ ?_ ?_
    · rw [sortOrder_of_isNaN (.inr hb), ha, hb2]
      simp
    · rw [sortOrder_of_isNaN (.inl hb), hb2, hc]
      simp
    · rw [sortOrder_swap c a, hlt]
      rfl
  · intro hno hab hbc hac
    have hle : a.rank ≤ c.rank := Nat.le_trans (rank_le_of_sortOrder hab) (rank_le_of_sortOrder hbc)
    by_cases hends : a.isNaN = true ∨ c.isNaN = true
    · -- with a not-a-number at an end, ranks decide
      rw [sortOrder_of_isNaN hends] at hac
      exact absurd (Nat.compare_eq_gt.1 hac) (Nat.not_lt.2 hle)
    · obtain ⟨ha, hc⟩ := not_or.1 hends
      rw [Bool.not_eq_true] at ha hc
      cases hb : b.isNaN with
      | false =>
        rw [sortOrder_eq_place ha hb] at hab
        rw [sortOrder_eq_place hb hc] at hbc
        rw [sortOrder_eq_place ha hc] at hac
        have hle := Std.TransOrd.isLE_trans (Ordering.isLE_iff_ne_gt.2 hab) (Ordering.isLE_iff_ne_gt.2 hbc)
        exact Ordering.isLE_iff_ne_gt.1 hle hac
      | true =>
        -- the rank of `a` is at most that of `b`, that at most that of `c`, and that at most that of `a`
        have hb2 := rank_of_isNaN hb
        have hca : c.sortOrder a = .lt := by rw [sortOrder_swap a c, hac]; rfl
        have hge := rank_le_of_sortOrder (a := c) (b := a) (by rw [hca]; simp)
        have h1 := rank_le_of_sortOrder hab
        have h2 := rank_le_of_sortOrder hbc
        exact hno ⟨hb, less_iff.2 ⟨by omega, by omega, hca⟩⟩

/-- A not-a-number stands for each value that it compares equal to, unless that is a number, against others. -/
theorem sortOrder_congr_of_isNaN (ha : a.isNaN = true) :
    (a.sortOrder b = .eq → a.sortOrder c = b.sortOrder c) ↔ ¬ b.Differ c := by
  have ha2 := rank_of_isNaN ha
  rw [sortOrder_of_isNaN (.inl ha), sortOrder_of_isNaN (.inl ha), ha2, Nat.compare_eq_eq, differ_iff]
  constructor
  · rintro hlaw ⟨hb, hc, hne⟩
    refine hne ((hlaw hb.symm).symm.trans ?_)
    rw [hc]
    rfl
  · intro hno hb
    by_cases hc : c.rank = 2
    · rw [hc]
      by_contra hne
      exact hno ⟨hb.symm, hc, Ne.symm hne⟩
    · rw [sortOrder, ← hb]
      cases hlt : compare 2 c.rank with
      | lt | gt => rfl
      | eq => exact absurd (Nat.compare_eq_eq.1 hlt).symm hc

/-- Two values that compare equal compare the same way with a third, unless one of them is a not-a-number and the
other two are numbers that differ. -/
theorem sortOrder_congr_iff (a b c : Value) :
    (a.sortOrder b = .eq → a.sortOrder c = b.sortOrder c) ↔
      ¬ ((a.isNaN = true ∧ b.Differ c) ∨ (b.isNaN = true ∧ a.Differ c)) := by
  cases ha : a.isNaN with
  | true =>
    rw [sortOrder_congr_of_isNaN ha]
    simp [not_differ_of_isNaN (.inl ha)]
  | false =>
    cases hb : b.isNaN with
    | true =>
      have hturned : (a.sortOrder b = .eq → a.sortOrder c = b.sortOrder c) ↔
          (b.sortOrder a = .eq → b.sortOrder c = a.sortOrder c) := by
        rw [sortOrder_swap a b, Ordering.swap_eq_eq]
        exact imp_congr_right fun _ => eq_comm
      rw [hturned, sortOrder_congr_of_isNaN hb]
      simp
    | false =>
      refine iff_of_true (fun hab => ?_) (by simp)
      cases hc : c.isNaN with
      | true => rw [sortOrder_of_isNaN (.inr hc), sortOrder_of_isNaN (.inr hc), rank_eq_of_sortOrder hab]
      | false =>
        rw [sortOrder_eq_place ha hb] at hab
        rw [sortOrder_eq_place ha hc, sortOrder_eq_place hb hc]
        exact Std.TransCmp.congr_left hab

/-- The laws of a total preorder, each with the values that it holds for. -/
theorem sortOrder_lawful_iff (a b c : Value) :
    b.sortOrder a = (a.sortOrder b).swap ∧
    ((a.sortOrder b ≠ .gt → b.sortOrder c ≠ .gt → a.sortOrder c ≠ .gt) ↔ ¬ (b.isNaN = true ∧ c.Less a)) ∧
    ((a.sortOrder b = .eq → a.sortOrder c = b.sortOrder c) ↔
      ¬ ((a.isNaN = true ∧ b.Differ c) ∨ (b.isNaN = true ∧ a.Differ c))) :=
  ⟨sortOrder_swap a b, sortOrder_trans_iff a b c, sortOrder_congr_iff a b c⟩

/-- A double that is no number. -/
def notANumber : Value := .double ⟨0x7ff8000000000000⟩

/-- Two is not greater than the not-a-number and that is not greater than one, and all three stay where they are in a
sort by them. -/
theorem sortOrder_unlawful :
    (int32 2).sortOrder notANumber = .eq ∧ notANumber.sortOrder (int32 1) = .eq ∧
    (int32 2).sortOrder (int32 1) = .gt ∧
    Pipeline.sort [[("k", int32 2)], [("k", notANumber)], [("k", int32 1)]] [("k", int32 1)] =
      .ok [[("k", int32 2)], [("k", notANumber)], [("k", int32 1)]] :=
  ⟨rfl, rfl, rfl, rfl⟩

/-! ### Equality and order -/

theorem equals_of_number {x y : Double} (hx : a.number? = some x) (hy : b.number? = some y) :
    a.equals b = x.equal y := by
  obtain ⟨n, rfl, rfl⟩ | ⟨n, rfl, rfl⟩ | rfl := eq_of_number hx <;> rw [equals, hy] <;> rfl

theorem rank_eq_of_equals (h : a.equals b = true) : a.rank = b.rank := by
  cases a <;> cases b <;> first | rfl | exact absurd h Bool.false_ne_true

theorem compare?_eq_eq_iff : a.compare? b = some .eq ↔ a.equals b = true ∧ a.isOrdered = true := by
  by_cases hr : a.rank = b.rank
  case neg =>
    rw [compare?_of_rank_ne hr]
    exact iff_of_false nofun fun h => hr (rank_eq_of_equals h.1)
  case pos =>
    cases alike_of_rank_eq hr with
    | missing ha hb =>
      rw [compare?_of_isMissing ha hb]
      rcases eq_of_isMissing ha with rfl | rfl <;> simp [equals, hb, isOrdered]
    | numbers hx hy =>
      have ho : a.isOrdered = true := by
        obtain ⟨n, rfl, rfl⟩ | ⟨n, rfl, rfl⟩ | rfl := eq_of_number hx <;> rfl
      rw [compare?_of_number hx hy, equals_of_number hx hy, Double.equal, decide_eq_true_iff, ho]
      simp
    | booleans x y => simp [compare?, equals, isOrdered]
    | strings x y => simp [compare?, equals, isOrdered]
    | dates x y => simp [compare?, equals, isOrdered, Int64.toInt_inj]
    | objectIds x y =>
      cases x
      cases y
      simp [compare?, equals, isOrdered, compareBytes_eq_compare]
    | bytes s t x y => simp [compare?, equals, isOrdered, compareBytes_eq_compare]
    | unordered ha hb => simp [compare?_of_unordered ha, ha]

/-- Equal values have no other order than that of equals. -/
theorem eq_of_compare? {o : Ordering} (h : a.equals b = true) (hc : a.compare? b = some o) : o = .eq := by
  have ho : a.isOrdered = true := by
    by_contra hno
    rw [compare?_of_unordered (Bool.eq_false_iff.2 hno)] at hc
    cases hc
  exact Option.some.inj (hc.symm.trans (compare?_eq_eq_iff.2 ⟨h, ho⟩))

end Value

/-! ### Operators of filters -/

namespace QueryOperator

variable {v w : Value}

/-- Values that are greater, or lesser, or equal and of a type that has an order. -/
theorem gte_iff : gte.compares v w = true ↔
    gt.compares v w = true ∨ (eq.compares v w = true ∧ v.isOrdered = true) := by
  simp [compares, Value.compare?_eq_eq_iff]

theorem lte_iff : lte.compares v w = true ↔
    lt.compares v w = true ∨ (eq.compares v w = true ∧ v.isOrdered = true) := by
  simp [compares, Value.compare?_eq_eq_iff]

theorem not_eq_of_gt (h : gt.compares v w = true) : ¬ eq.compares v w = true := by
  intro he
  cases Value.eq_of_compare? he (of_decide_eq_true h)

theorem not_eq_of_lt (h : lt.compares v w = true) : ¬ eq.compares v w = true := by
  intro he
  cases Value.eq_of_compare? he (of_decide_eq_true h)

theorem not_gt_of_lt (h : lt.compares v w = true) : ¬ gt.compares v w = true := by
  intro hg
  cases (of_decide_eq_true h).symm.trans (of_decide_eq_true hg)

theorem lt_turned (v w : Value) : lt.compares w v = gt.compares v w := by
  simp only [compares, Value.compare?_swap v w]
  cases v.compare? w with
  | none => rfl
  | some o => cases o <;> rfl

theorem lte_turned (v w : Value) : lte.compares w v = gte.compares v w := by
  simp only [compares, Value.compare?_swap v w]
  cases v.compare? w with
  | none => rfl
  | some o => cases o <;> rfl

/-- The comparison that also accepts equals does so where values have an order. -/
theorem gte_iff_or : (gte.compares v w = true ↔ gt.compares v w = true ∨ eq.compares v w = true) ↔
    (v.equals w = true → v.isOrdered = true) := by
  have hne := not_eq_of_gt (v := v) (w := w)
  rw [gte_iff, show eq.compares v w = v.equals w from rfl] at *
  tauto

theorem lte_iff_or : (lte.compares v w = true ↔ lt.compares v w = true ∨ eq.compares v w = true) ↔
    (v.equals w = true → v.isOrdered = true) := by
  have hne := not_eq_of_lt (v := v) (w := w)
  rw [lte_iff, show eq.compares v w = v.equals w from rfl] at *
  tauto

/-- A value of a field is greater than or equal to an operand exactly if it is greater or equal, unless it equals the
operand and is of a type without an order; and so for less. It differs exactly if it is not equal, at most one of less,
equal and greater holds, and turning the sides round turns the comparisons round. -/
theorem coherent_iff (stored : Option Value) (w : Value) :
    ((gte.holds stored w = true ↔ gt.holds stored w = true ∨ eq.holds stored w = true) ↔
      ∀ v, stored = some v → v.equals w = true → v.isOrdered = true) ∧
    ((lte.holds stored w = true ↔ lt.holds stored w = true ∨ eq.holds stored w = true) ↔
      ∀ v, stored = some v → v.equals w = true → v.isOrdered = true) ∧
    (ne.holds stored w = true ↔ ¬ eq.holds stored w = true) ∧
    ¬ (lt.holds stored w = true ∧ eq.holds stored w = true) ∧
    ¬ (eq.holds stored w = true ∧ gt.holds stored w = true) ∧
    ¬ (lt.holds stored w = true ∧ gt.holds stored w = true) ∧
    ∀ v, stored = some v →
      lt.holds (some w) v = gt.holds stored w ∧ gt.holds (some w) v = lt.holds stored w ∧
      lte.holds (some w) v = gte.holds stored w ∧ gte.holds (some w) v = lte.holds stored w := by
  cases stored with
  | none => simp [holds]
  | some v =>
    simp only [Option.some.injEq, forall_eq']
    refine ⟨gte_iff_or, lte_iff_or, ?_, fun ⟨hl, he⟩ => not_eq_of_lt hl he, fun ⟨he, hg⟩ => not_eq_of_gt hg he,
      fun ⟨hl, hg⟩ => not_gt_of_lt hl hg,
      lt_turned v w, (lt_turned w v).symm, lte_turned v w, (lte_turned w v).symm⟩
    simp [holds, compares]

/-- An array that equals the operand is neither greater than or equal to it nor less than or equal. -/
theorem incoherent_array :
    let row : Document := [("k", .array [.int32 1])]
    let test (o : QueryOperator) := row.satisfies [("k", .document [(o.token, .array [.int32 1])])]
    test eq = .ok true ∧ test gt = .ok false ∧ test gte = .ok false ∧ test lt = .ok false ∧ test lte = .ok false :=
  ⟨rfl, rfl, rfl, rfl, rfl⟩

end QueryOperator
end RelDoc
