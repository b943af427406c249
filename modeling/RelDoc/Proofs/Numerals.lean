import RelDoc.Json.Basic
import RelDoc.Json.Reader

/-!
# Texts of numbers

A JSON number is a whole number without leading zeros, then a fraction and an exponent or none of them,
in front of which a minus may stand. The strict reader drops exactly such a text where nothing of a
number can follow (`JsonTree.IsNumber.dropNumber`). Integers and finite doubles are written so
(`JsonTree.IsNumber.ofInt`, `JsonTree.doubleText_isNumber`).
-/

namespace RelDoc
namespace JsonTree

/-- Nothing of a number can follow: the text ends, an item or member follows, or the container ends. -/
def Closes (rest : List Char) : Prop := ∀ c ∈ rest.head?, c = ',' ∨ c = ']' ∨ c = '\x7d'

/-- No digit comes next. -/
def NoDigit (rest : List Char) : Prop := ∀ c ∈ rest.head?, c.isDigit = false

theorem Closes.noDigit {rest : List Char} (h : Closes rest) : NoDigit rest := by
  intro c hc
  rcases h c hc with rfl | rfl | rfl <;> rfl

/-- Some digits. -/
structure IsDigits (ds : List Char) : Prop where
  ne_nil : ds ≠ []
  digits : ∀ c ∈ ds, c.isDigit = true

namespace IsDigits

variable {ds es : List Char}

theorem append (hd : IsDigits ds) (he : ∀ c ∈ es, c.isDigit = true) : IsDigits (ds ++ es) :=
  ⟨by simp [hd.ne_nil], fun c hc => (List.mem_append.1 hc).elim (hd.digits c) (he c)⟩

theorem dropDigits {rest : List Char} (h : IsDigits ds) (hr : NoDigit rest) :
    JsonTree.dropDigits (ds ++ rest) = some rest := by
  cases ds with
  | nil => exact absurd rfl h.ne_nil
  | cons c more =>
    rw [List.cons_append, JsonTree.dropDigits, if_pos (h.digits c (List.mem_cons_self ..)),
      List.dropWhile_append_of_pos fun c hc => h.digits c (List.mem_cons_of_mem _ hc)]
    cases rest with
    | nil => rfl
    | cons c more => rw [List.dropWhile_cons_of_neg (by simp [hr c rfl])]

theorem toDigits (n : Nat) : IsDigits (Nat.toDigits 10 n) :=
  ⟨Nat.toDigits_ne_nil, fun _ hc => Nat.isDigit_of_mem_toDigits (by decide) (by decide) hc⟩

end IsDigits

theorem isDigit_replicate (n : Nat) : ∀ c ∈ List.replicate n '0', c.isDigit = true := by
  intro c hc
  rw [List.eq_of_mem_replicate hc]
  rfl

theorem head?_append {ds es : List Char} (h : ds ≠ []) : (ds ++ es).head? = ds.head? := by
  cases ds with
  | nil => exact absurd rfl h
  | cons c more => rfl

/-- The digits of a whole number: a zero alone, or digits of which the first is not zero. -/
structure IsWhole (ds : List Char) : Prop extends IsDigits ds where
  leading : ds = ['0'] ∨ ds.head? ≠ some '0'

namespace IsWhole

variable {ds : List Char}

theorem dropWhole {rest : List Char} (h : IsWhole ds) (hr : NoDigit rest) :
    JsonTree.dropWhole (ds ++ rest) = some rest := by
  rcases h.leading with rfl | hc
  · cases rest with
    | nil => rfl
    | cons c more => simp [JsonTree.dropWhole, hr c rfl]
  · rw [JsonTree.dropWhole]
    · exact h.dropDigits hr
    · intro more he
      cases ds with
      | nil => exact h.ne_nil rfl
      | cons c ds => exact hc (congrArg List.head? he)

/-- More digits may follow a number that is not zero. -/
theorem append {es : List Char} (h : IsWhole ds) (hne : ds ≠ ['0']) (he : ∀ c ∈ es, c.isDigit = true) :
    IsWhole (ds ++ es) := by
  refine ⟨h.toIsDigits.append he, .inr ?_⟩
  rw [head?_append h.ne_nil]
  exact h.leading.resolve_left hne

theorem take {n : Nat} (h : IsWhole ds) (hn : 0 < n) : IsWhole (ds.take n) := by
  have hne : ds.take n ≠ [] := by simp [h.ne_nil, Nat.ne_of_gt hn]
  refine ⟨⟨hne, fun c hc => h.digits c (List.mem_of_mem_take hc)⟩, ?_⟩
  rcases h.leading with rfl | hc
  · exact .inl (List.take_of_length_le hn)
  · rw [List.head?_take, if_neg (Nat.ne_of_gt hn)]
    exact .inr hc

end IsWhole

theorem head?_toDigits {n : Nat} (hn : 0 < n) : (Nat.toDigits 10 n).head? ≠ some '0' := by
  induction n using Nat.strongRecOn with
  | ind n ih =>
    rw [Nat.toDigits_eq_if (by decide)]
    split
    · next hlt =>
      have hsmall : ∀ k < 10, 0 < k → [Nat.digitChar k].head? ≠ some '0' := by decide
      exact hsmall n hlt hn
    · rw [head?_append Nat.toDigits_ne_nil]
      exact ih (n / 10) (by omega) (by omega)

theorem isWhole_toDigits (n : Nat) : IsWhole (Nat.toDigits 10 n) := by
  refine ⟨.toDigits n, ?_⟩
  rcases Nat.eq_zero_or_pos n with rfl | hn
  · exact .inl rfl
  · exact .inr (head?_toDigits hn)

/-- What may follow the whole part of a number before its exponent. -/
inductive IsFraction : List Char → Prop
  | none : IsFraction []
  | some {ds : List Char} (h : IsDigits ds) : IsFraction ('.' :: ds)

inductive IsExponent : List Char → Prop
  | none : IsExponent []
  | some {sign : Char} {ds : List Char} (hs : sign = '+' ∨ sign = '-') (h : IsDigits ds) :
    IsExponent ('e' :: sign :: ds)

theorem IsExponent.dropExponent {cs rest : List Char} (h : IsExponent cs) (hr : Closes rest) :
    JsonTree.dropExponent (cs ++ rest) = Option.some rest := by
  cases h with
  | none =>
    cases rest with
    | nil => rfl
    | cons c more => rcases hr c rfl with rfl | rfl | rfl <;> rfl
  | some hs h =>
    have hd := h.dropDigits hr.noDigit
    rcases hs with rfl | rfl <;> exact hd

theorem IsExponent.noDigit {cs rest : List Char} (h : IsExponent cs) (hr : Closes rest) : NoDigit (cs ++ rest) := by
  cases h with
  | none => exact hr.noDigit
  | some hs h =>
    intro c hc
    obtain rfl := Option.some.inj hc
    rfl

theorem IsFraction.dropFraction {cs es rest : List Char} (h : IsFraction cs) (he : IsExponent es) (hr : Closes rest) :
    JsonTree.dropFraction (cs ++ (es ++ rest)) = Option.some (es ++ rest) := by
  cases h with
  | none =>
    cases he with
    | none =>
      cases rest with
      | nil => rfl
      | cons c more => rcases hr c rfl with rfl | rfl | rfl <;> rfl
    | some hs h => rfl
  | some h => exact h.dropDigits (he.noDigit hr)

theorem IsFraction.noDigit {cs rest : List Char} (h : IsFraction cs) (hr : NoDigit rest) : NoDigit (cs ++ rest) := by
  cases h with
  | none => exact hr
  | some h =>
    intro c hc
    obtain rfl := Option.some.inj hc
    rfl

/-- The text of a number without its sign. -/
inductive IsUnsigned : List Char → Prop
  | intro {whole fraction exponent : List Char} (hw : IsWhole whole) (hf : IsFraction fraction)
    (he : IsExponent exponent) : IsUnsigned (whole ++ (fraction ++ exponent))

namespace IsUnsigned

variable {cs : List Char}

theorem head (h : IsUnsigned cs) : ∃ c more, cs = c :: more ∧ c.isDigit = true := by
  obtain ⟨hw, hf, he⟩ := h
  obtain ⟨c, more, rfl⟩ := List.exists_cons_of_ne_nil hw.ne_nil
  exact ⟨c, _, rfl, hw.digits c (List.mem_cons_self ..)⟩

theorem whole (h : IsWhole cs) : IsUnsigned cs := by
  have hu := intro h .none .none
  rwa [List.append_nil, List.append_nil] at hu

theorem drop {rest : List Char} (h : IsUnsigned cs) (hr : Closes rest) :
    ((dropWhole (cs ++ rest)).bind fun after => (dropFraction after).bind dropExponent) = some rest := by
  obtain ⟨hw, hf, he⟩ := h
  rw [List.append_assoc, List.append_assoc, hw.dropWhole (hf.noDigit (he.noDigit hr)), Option.bind_some,
    hf.dropFraction he hr, Option.bind_some, he.dropExponent hr]

end IsUnsigned

theorem toList_toString_of_nonneg {n : Int} (h : 0 ≤ n) : (toString n).toList = Nat.toDigits 10 n.toNat := by
  rw [Int.toString_eq_repr, Int.repr_eq_if, if_pos h, Nat.repr_eq_ofList_toDigits, String.toList_ofList]

theorem toList_toString_of_neg {n : Int} (h : n < 0) : (toString n).toList = '-' :: Nat.toDigits 10 (-n).toNat := by
  rw [Int.toString_eq_repr, Int.repr_eq_if, if_neg (Int.not_le.2 h), Nat.repr_eq_ofList_toDigits]
  simp

/-- The text of a number. -/
inductive IsNumber : List Char → Prop
  | positive {cs : List Char} (h : IsUnsigned cs) : IsNumber cs
  | negative {cs : List Char} (h : IsUnsigned cs) : IsNumber ('-' :: cs)

namespace IsNumber

variable {cs : List Char}

theorem head (h : IsNumber cs) : ∃ c more, cs = c :: more ∧ (c.isDigit = true ∨ c = '-') := by
  cases h with
  | positive h =>
    obtain ⟨c, more, rfl, hc⟩ := h.head
    exact ⟨c, more, rfl, .inl hc⟩
  | negative h => exact ⟨'-', _, rfl, .inr rfl⟩

theorem dropNumber {rest : List Char} (h : IsNumber cs) (hr : Closes rest) :
    JsonTree.dropNumber (cs ++ rest) = some rest := by
  cases h with
  | positive h =>
    obtain ⟨c, more, rfl, hc⟩ := h.head
    have hsign : c ≠ '-' := by
      rintro rfl
      simp at hc
    have hdrop := h.drop hr
    simpa [JsonTree.dropNumber, hsign] using hdrop
  | negative h => exact h.drop hr

/-- Whole numbers are written as numbers. -/
theorem ofInt (n : Int) : IsNumber (toString n).toList := by
  rcases Int.lt_or_le n 0 with hn | hn
  · rw [toList_toString_of_neg hn]
    exact .negative (.whole (isWhole_toDigits _))
  · rw [toList_toString_of_nonneg hn]
    exact .positive (.whole (isWhole_toDigits _))

end IsNumber

section
variable {digits : List Char}

/-- A zero alone has no other digits in front of its point. -/
theorem positionalText_isUnsigned {e : Int} (hw : IsWhole digits) (h0 : digits = ['0'] → e = 0) :
    IsUnsigned (Json.doubleLayout.positionalText digits e).toList := by
  have hzero : IsWhole ['0'] := ⟨⟨by simp, by simp⟩, .inl rfl⟩
  have hpoint : IsFraction ".0".toList := .some hzero.toIsDigits
  unfold Layout.positionalText
  simp only [Json.doubleLayout, if_true]
  split
  · have hfraction : IsDigits (List.replicate (-(e + 1)).toNat '0' ++ digits) :=
      ⟨by simp [hw.ne_nil], fun c hc => (List.mem_append.1 hc).elim (isDigit_replicate _ c) (hw.digits c)⟩
    have hu := IsUnsigned.intro hzero (.some hfraction) .none
    simpa using hu
  · split
    · have hwhole : IsWhole (digits ++ List.replicate ((e + 1).toNat - digits.length) '0') := by
        by_cases hd : digits = ['0']
        · obtain rfl := h0 hd
          rw [hd]
          exact hzero
        · exact hw.append hd (isDigit_replicate _)
      have hu := IsUnsigned.intro hwhole hpoint .none
      simpa using hu
    · next hpos hlen =>
      have hwhole : IsWhole (digits.take (e + 1).toNat) := hw.take (by omega)
      have hfraction : IsDigits (digits.drop (e + 1).toNat) :=
        ⟨by simp; omega, fun c hc => hw.digits c (List.mem_of_mem_drop hc)⟩
      have hu := IsUnsigned.intro hwhole (.some hfraction) .none
      simpa using hu

theorem scientificText_isUnsigned (e : Int) (hw : IsWhole digits) :
    IsUnsigned (Json.doubleLayout.scientificText digits e).toList := by
  have hwhole : IsWhole (digits.take 1) := hw.take Nat.one_pos
  have hfraction :
      IsFraction (if (digits.drop 1).isEmpty then "" else "." ++ String.ofList (digits.drop 1)).toList := by
    split
    · exact .none
    · next hne =>
      have hd : IsDigits (digits.drop 1) :=
        ⟨by simpa using hne, fun c hc => hw.digits c (List.mem_of_mem_drop hc)⟩
      simpa using IsFraction.some hd
  have hexponent : IsExponent ("e".toList ++ ((if 0 ≤ e then "+" else "").toList ++ (toString e).toList)) := by
    split
    · next he =>
      rw [toList_toString_of_nonneg he]
      exact .some (.inl rfl) (.toDigits _)
    · next he =>
      rw [toList_toString_of_neg (Int.not_le.1 he)]
      exact .some (.inr rfl) (.toDigits _)
  have hu := IsUnsigned.intro hwhole hfraction hexponent
  unfold Layout.scientificText
  simpa [Json.doubleLayout] using hu

end

/-- A decimal in the layout of doubles is written as a number. -/
theorem decimalText_isUnsigned (d : Decimal) : IsUnsigned (Json.doubleLayout.decimalText d).toList := by
  have hw := isWhole_toDigits d.digits
  have hd : Nat.toDigits 10 d.digits = ['0'] → d.digits = 0 := by
    intro h
    refine Nat.eq_zero_of_not_pos fun hpos => head?_toDigits hpos ?_
    rw [h]
    rfl
  have hl : Json.doubleLayout.positional = some (-5, 16) := rfl
  unfold Layout.decimalText
  simp only [hl]
  generalize he : (if d.digits = 0 then 0 else d.exponent + (Nat.toDigits 10 d.digits).length - 1) = e
  split
  · exact positionalText_isUnsigned hw fun h => he ▸ if_pos (hd h)
  · exact scientificText_isUnsigned e hw

/-- A finite double is written as a number. -/
theorem doubleText_isNumber {d : Double} (hn : d.isNaN = false) (hi : d.isInfinite = false) :
    IsNumber (Json.doubleLayout.text d).toList := by
  have h := decimalText_isUnsigned (d.shortest Json.doubleLayout.tie)
  unfold Layout.text
  rw [hn, hi]
  cases d.isNegative with
  | true => simpa using IsNumber.negative h
  | false => simpa using IsNumber.positive h

end JsonTree
end RelDoc
