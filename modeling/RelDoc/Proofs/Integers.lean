import Mathlib.Order.Monotone.Basic
import RelDoc.Proofs.Comparing
import RelDoc.Proofs.Query

/-!
# Integers under filters and sorts

Filters and sorts compare numbers as doubles, and a double holds 53 bits. So an integer is taken for its rounding
to 53 bits, `Double.nearest`: no whole number that a double holds is nearer (`Double.nearest_le`). Rounding keeps the
order of integers but may make two of them one, and that is all that comparisons get wrong: they answer as for
the roundings (`Value.integers_readAs`). For every pair of which one integer is below `2 ^ 53`, as for all of 32 bits,
that is the order of the integers themselves. The first pair that is confused is `2 ^ 53` and its successor
(`Value.integers_confused`).

A double is read by its bits as a multiple of the least positive one, which grows strictly with the bits below the sign
(`Double.multiple_strictMono`), and the double of an integer is its rounding times a scale (`Double.exists_scale`).
-/

namespace RelDoc

namespace Double

/-! ### Rounding to 53 bits -/

/-- The number rounded to 53 bits, a half to the even significand. -/
def nearestNat (n : Nat) : Nat := roundShift n (n.log2 - 52) * Nat.pow 2 (n.log2 - 52)

/-- A function of natural numbers taken to the integers, where it keeps the sign. -/
def signed (f : Nat → Nat) (n : Int) : Int := if n < 0 then -(f n.natAbs : Int) else f n.natAbs

/-- The nearest whole number that a double holds. -/
def nearest : Int → Int := signed nearestNat

/-- A double holds the number exactly: 53 bits with zeros behind, whatever the sign. -/
def Holds (n : Int) : Prop := ∃ s e : Nat, s < Nat.pow 2 53 ∧ n.natAbs = s * Nat.pow 2 e

theorem signed_natCast (f : Nat → Nat) (n : Nat) : signed f n = f n := by
  rw [signed, if_neg (by omega), Int.natAbs_natCast]

theorem signed_neg {f : Nat → Nat} (h : f 0 = 0) (n : Nat) : signed f (-n) = -(f n : Int) := by
  rcases Nat.eq_zero_or_pos n with rfl | hn
  · simp [signed, h]
  · rw [signed, if_pos (by omega), Int.natAbs_neg, Int.natAbs_natCast]

theorem signed_signed {f g : Nat → Nat} (h : g 0 = 0) (n : Int) :
    signed g (signed f n) = signed (fun k => g (f k)) n := by
  rw [signed.eq_def f, signed.eq_def fun k => g (f k)]
  split
  · exact signed_neg h _
  · exact signed_natCast g _

theorem signed_lt {f : Nat → Nat} (hf : StrictMono f) (h : f 0 = 0) {m n : Int} (hlt : m < n) :
    signed f m < signed f n := by
  unfold signed
  split
  case isTrue hm =>
    split
    case isTrue hn =>
      have hmono := hf (show n.natAbs < m.natAbs by omega)
      omega
    case isFalse hn =>
      have hmono := hf (show 0 < m.natAbs by omega)
      omega
  case isFalse hm =>
    have hmono := hf (show m.natAbs < n.natAbs by omega)
    rw [if_neg (by omega)]
    omega

theorem roundShift_cases (n shift : Nat) :
    (roundShift n shift = n / Nat.pow 2 shift ∧ 2 * (n % Nat.pow 2 shift) ≤ Nat.pow 2 shift) ∨
      (roundShift n shift = n / Nat.pow 2 shift + 1 ∧ Nat.pow 2 shift ≤ 2 * (n % Nat.pow 2 shift)) := by
  have heven : 0 < shift → Nat.pow 2 shift % 2 = 0 := by
    intro hs
    obtain ⟨k, rfl⟩ := Nat.exists_eq_add_of_lt hs
    rw [Nat.pow_eq, Nat.pow_succ]
    exact Nat.mul_mod_left ..
  unfold roundShift
  dsimp only
  split
  case isTrue h =>
    refine .inr ⟨rfl, ?_⟩
    simp only [Bool.or_eq_true, Bool.and_eq_true, decide_eq_true_eq] at h
    omega
  case isFalse h =>
    refine .inl ⟨rfl, ?_⟩
    simp only [Bool.or_eq_true, Bool.and_eq_true, decide_eq_true_eq] at h
    omega

variable {n k : Nat}

/-- Behind the point, 53 bits are left of a number. -/
theorem quotient_lt (n : Nat) : n / Nat.pow 2 (n.log2 - 52) < Nat.pow 2 53 := by
  have hn : n < 2 ^ (n.log2 + 1) := Nat.lt_log2_self
  rw [Nat.pow_eq, Nat.pow_eq, Nat.div_lt_iff_lt_mul (Nat.two_pow_pos _), ← Nat.pow_add]
  exact Nat.lt_of_lt_of_le hn (Nat.pow_le_pow_right (by decide) (by omega))

theorem le_quotient (h : 52 < n.log2) : Nat.pow 2 52 ≤ n / Nat.pow 2 (n.log2 - 52) := by
  have hn : n ≠ 0 := by
    rintro rfl
    simp at h
  rw [Nat.pow_eq, Nat.pow_eq, Nat.le_div_iff_mul_le (Nat.two_pow_pos _), ← Nat.pow_add,
    show 52 + (n.log2 - 52) = n.log2 by omega]
  exact Nat.log2_self_le hn

/-- A number that a double holds is on every grid of powers of two, or below the part of the grid where doubles lie
that far apart. -/
theorem Holds.grid (h : Holds k) (shift : Nat) :
    (∃ m, k = m * Nat.pow 2 shift) ∨ (0 < shift ∧ k < Nat.pow 2 52 * Nat.pow 2 shift) := by
  obtain ⟨s, e, hs, hk⟩ := h
  rw [Int.natAbs_natCast] at hk
  subst hk
  simp only [Nat.pow_eq] at hs ⊢
  rcases Nat.lt_or_ge e shift with he | he
  · refine .inr ⟨by omega, ?_⟩
    calc s * 2 ^ e < 2 ^ 53 * 2 ^ e := Nat.mul_lt_mul_of_pos_right hs (Nat.two_pow_pos _)
      _ ≤ 2 ^ 52 * 2 ^ shift := by
        rw [← Nat.pow_add, ← Nat.pow_add]
        exact Nat.pow_le_pow_right (by decide) (by omega)
  · refine .inl ⟨s * 2 ^ (e - shift), ?_⟩
    rw [Nat.mul_assoc, ← Nat.pow_add, Nat.sub_add_cancel he]

/-- No number that a double holds is nearer than the rounded one. -/
theorem nearestNat_le (n : Nat) (hk : Holds k) : ((n : Int) - nearestNat n).natAbs ≤ ((n : Int) - k).natAbs := by
  have hn := Nat.div_add_mod' n (Nat.pow 2 (n.log2 - 52))
  have hr := Nat.mod_lt n (Nat.two_pow_pos (n.log2 - 52))
  have hround := roundShift_cases n (n.log2 - 52)
  -- the candidate is no point between the two neighbours of `n` on its grid
  have hside : k ≤ n / Nat.pow 2 (n.log2 - 52) * Nat.pow 2 (n.log2 - 52) ∨
      n / Nat.pow 2 (n.log2 - 52) * Nat.pow 2 (n.log2 - 52) + Nat.pow 2 (n.log2 - 52) ≤ k := by
    rcases hk.grid (n.log2 - 52) with ⟨m, rfl⟩ | ⟨hpos, hlt⟩
    · rcases Nat.lt_or_ge (n / Nat.pow 2 (n.log2 - 52)) m with h | h
      · right
        rw [← Nat.succ_mul]
        exact Nat.mul_le_mul_right _ h
      · exact .inl (Nat.mul_le_mul_right _ h)
    · have hle := Nat.mul_le_mul_right (Nat.pow 2 (n.log2 - 52)) (le_quotient (n := n) (by omega))
      omega
  unfold nearestNat
  rw [← Nat.pow_eq] at hr
  generalize Nat.pow 2 (n.log2 - 52) = step at *
  rcases hround with ⟨he, h⟩ | ⟨he, h⟩
  · rw [he]
    omega
  · rw [he, Nat.succ_mul]
    omega

theorem roundShift_le_pow (n : Nat) : roundShift n (n.log2 - 52) ≤ Nat.pow 2 53 := by
  have hq := quotient_lt n
  rcases roundShift_cases n (n.log2 - 52) with ⟨he, -⟩ | ⟨he, -⟩
  · omega
  · omega

theorem holds_nearestNat (n : Nat) : Holds (nearestNat n) := by
  have hle := roundShift_le_pow n
  rcases Nat.lt_or_ge (roundShift n (n.log2 - 52)) (Nat.pow 2 53) with h | h
  · exact ⟨_, _, h, by rw [Int.natAbs_natCast, nearestNat]⟩
  · -- rounded up to the next power of two
    refine ⟨Nat.pow 2 52, n.log2 - 52 + 1, by simp, ?_⟩
    have he : roundShift n (n.log2 - 52) = 2 ^ 53 := Nat.le_antisymm hle h
    rw [Int.natAbs_natCast, nearestNat, he, Nat.pow_eq, Nat.pow_eq, Nat.pow_eq, ← Nat.pow_add, ← Nat.pow_add]
    congr 1
    omega

/-! ### The nearest whole number -/

theorem Holds.neg {n : Int} (h : Holds n) : Holds (-n) := by rwa [Holds, Int.natAbs_neg]

theorem holds_of_le {n : Int} (h : n.natAbs ≤ Nat.pow 2 53) : Holds n := by
  rcases Nat.lt_or_eq_of_le h with h | h
  · exact ⟨n.natAbs, 0, h, by simp⟩
  · exact ⟨Nat.pow 2 52, 1, by simp, by rw [h]⟩

theorem holds_nearest (n : Int) : Holds (nearest n) := by
  obtain ⟨m, rfl | rfl⟩ := n.eq_nat_or_neg
  · rw [nearest, signed_natCast]
    exact holds_nearestNat m
  · rw [nearest, signed_neg rfl]
    exact (holds_nearestNat m).neg

theorem nearestNat_le_int (n : Nat) {k : Int} (hk : Holds k) :
    ((n : Int) - nearestNat n).natAbs ≤ ((n : Int) - k).natAbs := by
  have hzero := nearestNat_le (k := 0) n (holds_of_le (by simp))
  obtain ⟨m, rfl | rfl⟩ := k.eq_nat_or_neg
  · exact nearestNat_le n hk
  · -- zero is nearer than any negative number
    omega

/-- No number that a double holds is nearer than the rounded one. -/
theorem nearest_le (n : Int) {k : Int} (hk : Holds k) : (n - nearest n).natAbs ≤ (n - k).natAbs := by
  obtain ⟨m, rfl | rfl⟩ := n.eq_nat_or_neg
  · rw [nearest, signed_natCast]
    exact nearestNat_le_int m hk
  · have h := nearestNat_le_int m hk.neg
    rw [nearest, signed_neg rfl]
    omega

theorem nearest_of_holds {n : Int} (h : Holds n) : nearest n = n := by
  have hle := nearest_le n h
  omega

/-- Rounding keeps the order, though not strictly. -/
theorem nearest_mono {m n : Int} (h : m ≤ n) : nearest m ≤ nearest n := by
  have hm := nearest_le m (holds_nearest n)
  have hn := nearest_le n (holds_nearest m)
  rcases Int.lt_or_eq_of_le h with hlt | rfl
  · by_contra hgt
    omega
  · exact Int.le_refl _

/-- A number of at most 53 bits, but for the last power of two, shares its double with no other. -/
theorem eq_of_nearest_eq {m n : Int} (hm : m.natAbs < Nat.pow 2 53) (h : nearest m = nearest n) : m = n := by
  have hself := nearest_of_holds (holds_of_le (Nat.le_of_lt hm))
  have habove := nearest_of_holds (n := m + 1) (holds_of_le (by omega))
  have hbelow := nearest_of_holds (n := m - 1) (holds_of_le (by omega))
  rcases Int.lt_trichotomy m n with hlt | rfl | hgt
  · have hmono := nearest_mono (show m + 1 ≤ n by omega)
    omega
  · rfl
  · have hmono := nearest_mono (show n ≤ m - 1 by omega)
    omega

theorem nearest_lt {m n : Int} (h : nearest m = nearest n → m = n) (hlt : m < n) : nearest m < nearest n := by
  have hmono := nearest_mono (Int.le_of_lt hlt)
  have hne : nearest m ≠ nearest n := fun he => Int.ne_of_lt hlt (h he)
  omega

theorem compare_congr {m n a b : Int} (hlt : m < n → a < b) (heq : m = n → a = b) (hgt : n < m → b < a) :
    compare a b = compare m n := by
  rcases Int.lt_trichotomy m n with h | h | h
  · rw [compare_lt_iff_lt.2 h, compare_lt_iff_lt.2 (hlt h)]
  · rw [compare_eq_iff_eq.2 h, compare_eq_iff_eq.2 (heq h)]
  · rw [compare_gt_iff_gt.2 h, compare_gt_iff_gt.2 (hgt h)]

theorem compare_nearest {m n : Int} (h : nearest m = nearest n → m = n) :
    compare (nearest m) (nearest n) = compare m n :=
  compare_congr (nearest_lt h) (congrArg nearest) (nearest_lt fun he => (h he.symm).symm)

/-! ### Doubles as multiples of the least one -/

/-- The positive double with these bits, as a multiple of the least positive double. -/
def multiple (magnitude : Nat) : Nat :=
  if magnitude / Nat.pow 2 52 = 0 then magnitude % Nat.pow 2 52
  else (Nat.pow 2 52 + magnitude % Nat.pow 2 52) * Nat.pow 2 (magnitude / Nat.pow 2 52 - 1)

theorem multiple_normal {biased fraction : Nat} (hb : 0 < biased) (hf : fraction < Nat.pow 2 52) :
    multiple (biased * Nat.pow 2 52 + fraction) = (Nat.pow 2 52 + fraction) * Nat.pow 2 (biased - 1) := by
  have hdiv : (biased * Nat.pow 2 52 + fraction) / Nat.pow 2 52 = biased := by
    rw [Nat.mul_comm, Nat.mul_add_div (by simp), Nat.div_eq_of_lt hf, Nat.add_zero]
  have hmod : (biased * Nat.pow 2 52 + fraction) % Nat.pow 2 52 = fraction := by
    rw [Nat.mul_comm, Nat.mul_add_mod, Nat.mod_eq_of_lt hf]
  rw [multiple, hdiv, hmod, if_neg (by omega)]

theorem multiple_subnormal {fraction : Nat} (hf : fraction < Nat.pow 2 52) : multiple fraction = fraction := by
  rw [multiple, if_pos (Nat.div_eq_of_lt hf), Nat.mod_eq_of_lt hf]

/-- The bits below the sign grow with the number. -/
theorem multiple_lt_succ (magnitude : Nat) : multiple magnitude < multiple (magnitude + 1) := by
  obtain ⟨biased, fraction, hf, rfl⟩ : ∃ biased fraction, fraction < Nat.pow 2 52 ∧
      magnitude = biased * Nat.pow 2 52 + fraction :=
    ⟨_, _, Nat.mod_lt _ (by simp), (Nat.div_add_mod' ..).symm⟩
  rcases Nat.lt_or_ge (fraction + 1) (Nat.pow 2 52) with hnext | hcarry
  · rcases Nat.eq_zero_or_pos biased with rfl | hb
    · rw [Nat.zero_mul, Nat.zero_add, multiple_subnormal hf, multiple_subnormal hnext]
      exact Nat.lt_succ_self _
    · rw [multiple_normal hb hf, Nat.add_assoc, multiple_normal hb hnext]
      exact Nat.mul_lt_mul_of_pos_right (by omega) (Nat.two_pow_pos _)
  · -- the fraction is full, and the next exponent begins
    have hsucc : biased * Nat.pow 2 52 + fraction + 1 = (biased + 1) * Nat.pow 2 52 + 0 := by
      rw [Nat.succ_mul]
      omega
    rw [hsucc, multiple_normal (Nat.succ_pos biased) (by simp), Nat.add_zero, Nat.succ_sub_one]
    rcases Nat.eq_zero_or_pos biased with rfl | hb
    · rw [Nat.zero_mul, Nat.zero_add, multiple_subnormal hf]
      simpa using hf
    · have hpow : Nat.pow 2 biased = 2 * Nat.pow 2 (biased - 1) := by
        rw [Nat.pow_eq, Nat.pow_eq, ← Nat.pow_succ', Nat.succ_eq_add_one, Nat.sub_add_cancel hb]
      rw [multiple_normal hb hf, hpow, ← Nat.mul_assoc]
      exact Nat.mul_lt_mul_of_pos_right (by omega) (Nat.two_pow_pos _)

theorem multiple_strictMono : StrictMono multiple := strictMono_nat_of_lt_succ multiple_lt_succ

/-- A significand that has 53 bits, or one more behind the carry, over its exponent. -/
theorem multiple_packed {top significand : Nat} (hlow : Nat.pow 2 52 ≤ significand)
    (hhigh : significand ≤ Nat.pow 2 53) :
    multiple ((top + 1023) * Nat.pow 2 52 + (significand - Nat.pow 2 52)) =
      significand * Nat.pow 2 (top + 1022) := by
  rcases Nat.lt_or_eq_of_le hhigh with h | h
  · rw [multiple_normal (by omega) (by simp at hlow h ⊢; omega), Nat.add_sub_cancel' hlow]
    rfl
  · have hcarry : (top + 1023) * Nat.pow 2 52 + (significand - Nat.pow 2 52) =
        (top + 1024) * Nat.pow 2 52 + 0 := by
      rw [h]
      simp
      omega
    rw [hcarry, multiple_normal (Nat.succ_pos _) (by simp), h, Nat.add_zero]
    simp only [Nat.pow_eq]
    rw [← Nat.pow_add, ← Nat.pow_add, show 52 + (top + 1024 - 1) = 53 + (top + 1022) by omega]

/-- The significand that a natural number is packed with: that of the rounded number, with the carry still in it. -/
theorem magnitudeOfNat_packed (hn : 0 < n) : ∃ significand,
    magnitudeOfNat n = (n.log2 + 1023) * Nat.pow 2 52 + (significand - Nat.pow 2 52) ∧
      Nat.pow 2 52 ≤ significand ∧ significand ≤ Nat.pow 2 53 ∧
      significand * Nat.pow 2 n.log2 = nearestNat n * Nat.pow 2 52 := by
  have hself : Nat.pow 2 n.log2 ≤ n := Nat.log2_self_le (by omega)
  have hlog : n < Nat.pow 2 (n.log2 + 1) := Nat.lt_log2_self
  have hpow (a b : Nat) : Nat.pow 2 a * Nat.pow 2 b = Nat.pow 2 (a + b) := (Nat.pow_add 2 a b).symm
  refine ⟨_, by rw [magnitudeOfNat, if_neg (by omega)], ?_⟩
  split
  case isTrue htop =>
    -- a number of at most 53 bits is shifted up to the first of them
    have hexact : nearestNat n = n := by
      rw [nearestNat, Nat.sub_eq_zero_of_le htop]
      simp [roundShift, Nat.mod_one]
    refine ⟨?_, ?_, ?_⟩
    · calc Nat.pow 2 52 = Nat.pow 2 n.log2 * Nat.pow 2 (52 - n.log2) := by rw [hpow, Nat.add_sub_cancel' htop]
        _ ≤ n * Nat.pow 2 (52 - n.log2) := Nat.mul_le_mul_right _ hself
    · calc n * Nat.pow 2 (52 - n.log2) ≤ Nat.pow 2 (n.log2 + 1) * Nat.pow 2 (52 - n.log2) :=
            Nat.mul_le_mul_right _ (Nat.le_of_lt hlog)
        _ = Nat.pow 2 53 := by rw [hpow, show n.log2 + 1 + (52 - n.log2) = 53 by omega]
    · rw [hexact, Nat.mul_assoc, hpow, Nat.sub_add_cancel htop]
  case isFalse htop =>
    have hquotient := le_quotient (n := n) (by omega)
    refine ⟨?_, roundShift_le_pow n, ?_⟩
    · rcases roundShift_cases n (n.log2 - 52) with ⟨hr, -⟩ | ⟨hr, -⟩ <;> omega
    · rw [nearestNat, Nat.mul_assoc, hpow, Nat.sub_add_cancel (by omega)]

/-- The double of a natural number is the number, rounded to 53 bits. The scale is the number one, as a multiple of the
least positive double. -/
theorem exists_scale : ∃ scale, 0 < scale ∧ ∀ n, multiple (magnitudeOfNat n) = nearestNat n * scale := by
  obtain ⟨e, he⟩ : ∃ e, e = 1022 := ⟨_, rfl⟩
  refine ⟨Nat.pow 2 52 * Nat.pow 2 e, Nat.mul_pos (Nat.two_pow_pos _) (Nat.two_pow_pos _), fun n => ?_⟩
  rcases Nat.eq_zero_or_pos n with rfl | hn
  · exact (Nat.mul_eq_zero.2 (.inl rfl)).symm
  · obtain ⟨significand, hpacked, hlow, hhigh, hvalue⟩ := magnitudeOfNat_packed hn
    calc multiple (magnitudeOfNat n) = significand * Nat.pow 2 (n.log2 + e) := by
          rw [hpacked, multiple_packed hlow hhigh, he]
      _ = significand * Nat.pow 2 n.log2 * Nat.pow 2 e := by
          rw [Nat.mul_assoc]
          exact congrArg _ (Nat.pow_add ..)
      _ = nearestNat n * (Nat.pow 2 52 * Nat.pow 2 e) := by rw [hvalue, Nat.mul_assoc]

/-! ### Doubles of integers -/

theorem position_ofInt {n : Int} (h : n.natAbs < Nat.pow 2 64) : (ofInt n).position = signed magnitudeOfNat n := by
  have hnan := isNaN_ofInt h
  have hle := magnitudeOfNat_le h
  rw [position, position?, hnan, if_neg Bool.false_ne_true, Option.getD_some, isNegative, magnitude, ofInt, signed]
  simp only [UInt64.toNat_ofNat', Nat.pow_eq, infinite] at hle ⊢
  split
  case isTrue hn =>
    rw [if_pos (by simp; omega)]
    omega
  case isFalse hn =>
    rw [if_neg (by simp; omega)]
    omega

theorem compare_of_lt {f : Int → Int} (h : ∀ {m n}, m < n → f m < f n) (m n : Int) :
    compare (f m) (f n) = compare m n :=
  compare_congr h (congrArg f) h

/-- The doubles of two integers stand to each other like the integers, both rounded to 53 bits. -/
theorem compare?_ofInt {m n : Int} (hm : m.natAbs < Nat.pow 2 64) (hn : n.natAbs < Nat.pow 2 64) :
    (ofInt m).compare? (ofInt n) = some (compare (nearest m) (nearest n)) := by
  obtain ⟨scale, hpos, hscale⟩ := exists_scale
  have hvalue (k : Int) : signed multiple (signed magnitudeOfNat k) = nearest k * scale := by
    rw [signed_signed rfl, funext hscale, nearest, signed, signed]
    split
    · rw [Int.natCast_mul, Int.neg_mul]
    · rw [Int.natCast_mul]
  have hmultiple := compare_of_lt (signed_lt multiple_strictMono rfl)
  have hscaled := compare_of_lt (f := (· * scale)) fun hab => Int.mul_lt_mul_of_pos_right hab (by omega)
  rw [compare?_eq_compare (isNaN_ofInt hm) (isNaN_ofInt hn), position_ofInt hm, position_ofInt hn, ← hmultiple,
    hvalue, hvalue, hscaled]

end Double

/-! ### Comparisons of integers -/

namespace QueryOperator

/-- Does the comparison hold of two values that stand in this order? -/
def accepts (o : QueryOperator) (order : Ordering) : Bool :=
  match o with
  | eq => order = .eq
  | ne => order ≠ .eq
  | gt => order = .gt
  | gte => order ≠ .lt
  | lt => order = .lt
  | lte => order ≠ .gt

/-- Comparisons of two values that have an order answer by it. -/
theorem compares_eq_accepts {v w : Value} {order : Ordering} (h : v.compare? w = some order) (o : QueryOperator) :
    o.compares v w = o.accepts order := by
  have heq : v.equals w = decide (order = .eq) := by
    have ho : v.isOrdered = true := by
      by_contra hno
      rw [Value.compare?_of_unordered (Bool.eq_false_iff.2 hno)] at h
      cases h
    have hiff : order = .eq ↔ v.equals w = true := by
      have heq := Value.compare?_eq_eq_iff (a := v) (b := w)
      rw [h, Option.some.injEq, ho] at heq
      simpa using heq
    rw [Bool.eq_iff_iff, decide_eq_true_iff, hiff]
  cases o with
  | eq => exact heq
  | ne => simp [compares, accepts, heq]
  | gt | lt => simp [compares, accepts, h]
  | gte | lte => cases order <;> simp [compares, accepts, h]

end QueryOperator

namespace Value

/-- Filters and sorts take two values to stand in this order, wherever they come upon them. -/
structure ReadAs (a b : Value) (order : Ordering) : Prop where
  filters : ∀ (o : QueryOperator) (path : String) (row : Document), isOperatorName path = false →
    row.lookup path = some a → row.satisfies [(path, .document [(o.token, b)])] = .ok (o.accepts order)
  sorts : ∀ (p : Pipeline.SortPath) (row other : Document), row.lookup p.path = some a →
    other.lookup p.path = some b →
    Pipeline.compareRows [p] row other = if p.descending then order.swap else order

variable {a b : Value} {m n : Int}

theorem number_of_integer (h : a.integer? = some m) :
    a.number? = some (Double.ofInt m) ∧ m.natAbs < Nat.pow 2 64 := by
  cases a with
  | int32 k =>
    obtain rfl := Option.some.inj h
    have hlow := k.le_toInt
    have hhigh := k.toInt_lt
    exact ⟨rfl, by simp; omega⟩
  | int64 k =>
    obtain rfl := Option.some.inj h
    have hlow := k.le_toInt
    have hhigh := k.toInt_lt
    exact ⟨rfl, by simp; omega⟩
  | _ => cases h

theorem compare?_of_integers (ha : a.integer? = some m) (hb : b.integer? = some n) :
    a.compare? b = some (compare (Double.nearest m) (Double.nearest n)) := by
  obtain ⟨hx, hm⟩ := number_of_integer ha
  obtain ⟨hy, hn⟩ := number_of_integer hb
  rw [compare?_of_number hx hy, Double.compare?_ofInt hm hn]

theorem readAs_of_compare? {order : Ordering} (hr : a.rank = b.rank) (h : a.compare? b = some order) :
    ReadAs a b order where
  filters o path row hpath ha := by
    rw [row.satisfies_comparison (show isOperatorName (FieldPath.mk path).text = false from hpath), ha]
    exact congrArg Except.ok (QueryOperator.compares_eq_accepts h o)
  sorts p row other ha hb := by
    have ho : a.sortOrder b = order := by
      rw [sortOrder_of_rank_eq hr, h]
      rfl
    rw [Pipeline.compareRows, Pipeline.compareRows, Pipeline.sortValue, Pipeline.sortValue, ha, hb, Ordering.then_eq]
    simp only [Option.getD_some, ho]

/-- Two values are read in one order only. -/
theorem ReadAs.unique {order order' : Ordering} (h : ReadAs a b order) (h' : ReadAs a b order') : order = order' := by
  have ha : Document.lookup [("k", a)] "k" = some a := rfl
  have hb : Document.lookup [("k", b)] "k" = some b := rfl
  have hsort := h.sorts ⟨"k", false⟩ _ _ ha hb
  rw [h'.sorts ⟨"k", false⟩ _ _ ha hb] at hsort
  exact hsort.symm

/-- Integers of either width are read in the order of their roundings to 53 bits. That is the order of the integers
themselves exactly if the two are equal or have different roundings, and so for every two of which one has at most
53 bits. -/
theorem integers_readAs (ha : a.integer? = some m) (hb : b.integer? = some n) :
    ReadAs a b (compare (Double.nearest m) (Double.nearest n)) ∧
    (ReadAs a b (compare m n) ↔ (Double.nearest m = Double.nearest n → m = n)) ∧
    (m.natAbs < Nat.pow 2 53 ∨ n.natAbs < Nat.pow 2 53 → ReadAs a b (compare m n)) := by
  have hr : a.rank = b.rank :=
    (rank_of_number (number_of_integer ha).1).trans (rank_of_number (number_of_integer hb).1).symm
  have hread := readAs_of_compare? hr (compare?_of_integers ha hb)
  have hiff : ReadAs a b (compare m n) ↔ (Double.nearest m = Double.nearest n → m = n) := by
    constructor
    · intro h heq
      have hsame := h.unique hread
      rw [heq, compare_eq_iff_eq.2 rfl] at hsame
      exact compare_eq_iff_eq.1 hsame
    · intro h
      rwa [← Double.compare_nearest h]
  refine ⟨hread, hiff, fun hsmall => hiff.2 fun heq => ?_⟩
  rcases hsmall with hm | hn
  · exact Double.eq_of_nearest_eq hm heq
  · exact (Double.eq_of_nearest_eq hn heq.symm).symm

/-- The first integer of 54 bits that no double holds is read as equal to the one below it, and is told from short
integers of either width. -/
theorem integers_readAs_neighbours :
    ReadAs (int64 9007199254740993) (int64 9007199254740992) .eq ∧
    ¬ ReadAs (int64 9007199254740993) (int64 9007199254740992) .gt ∧
    ReadAs (int32 (-5)) (int64 9007199254740993) .lt := by
  obtain ⟨hread, hiff, -⟩ := integers_readAs (a := int64 9007199254740993) (b := int64 9007199254740992) rfl rfl
  obtain ⟨-, -, hsmall⟩ := integers_readAs (a := int32 (-5)) (b := int64 9007199254740993) rfl rfl
  refine ⟨hread, fun h => ?_, hsmall (.inl (by decide))⟩
  have hsame : (9007199254740993 : Int) = 9007199254740992 := hiff.1 h rfl
  exact absurd hsame (by decide)

/-- A row is found by the key below its own, which is not less than its own either, and the two do not change places in
a sort. -/
theorem integers_confused :
    let row : Document := [("_id", int64 9007199254740993)]
    let below : Document := [("_id", int64 9007199254740992)]
    let test (o : QueryOperator) (d : Document) (n : Int64) := d.satisfies [("_id", .document [(o.token, int64 n)])]
    test .eq row 9007199254740992 = .ok true ∧ test .ne row 9007199254740992 = .ok false ∧
    test .gt row 9007199254740992 = .ok false ∧ test .lte row 9007199254740992 = .ok true ∧
    test .lt below 9007199254740993 = .ok false ∧ test .gte below 9007199254740993 = .ok true ∧
    Pipeline.sort [row, below] [("_id", int32 1)] = .ok [row, below] :=
  ⟨rfl, rfl, rfl, rfl, rfl, rfl, rfl⟩

end Value
end RelDoc
