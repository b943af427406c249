import RelDoc.Proofs.Numerals
import RelDoc.Value.Extended
import Mathlib.Tactic.SplitIfs

/-!
# Compact text reads back

The strict reader takes the text that `Json.compact` writes, whatever may follow a value behind it, and
reads the members in their order, each string as its code points (`JsonTree.reads_of_finite`). So the
compact text of a value is one JSON text and nothing else (`JsonTree.ofString?_compact`), as long as its
doubles are finite; those of extended JSON are (`Value.finite_extended`).
-/

namespace RelDoc

namespace Json

/-- The code points of a string. -/
def units (s : String) : List Nat := s.toList.map Char.toNat

mutual
/-- What a strict reader has to read from the text. -/
def tree : Json → JsonTree
  | null => .null
  | bool b => .bool b
  | integer _ => .number
  | double _ => .number
  | string s => .string (units s)
  | array items => .array (treeItems items)
  | object members => .object (treeMembers members)

def treeItems : List Json → List JsonTree
  | [] => []
  | v :: rest => tree v :: treeItems rest

def treeMembers : List (String × Json) → List (List Nat × JsonTree)
  | [] => []
  | (k, v) :: rest => (units k, tree v) :: treeMembers rest
end

mutual
/-- Every double is a number of JSON: neither infinite nor a not-a-number. -/
def Finite : Json → Prop
  | double d => d.isNaN = false ∧ d.isInfinite = false
  | array items => FiniteItems items
  | object members => FiniteMembers members
  | _ => True

def FiniteItems : List Json → Prop
  | [] => True
  | v :: rest => Finite v ∧ FiniteItems rest

def FiniteMembers : List (String × Json) → Prop
  | [] => True
  | (_, v) :: rest => Finite v ∧ FiniteMembers rest
end

/-- A comma stands between items. -/
theorem compactItems_cons (v w : Json) (rest : List Json) :
    (compactItems true (v :: w :: rest)).toList =
      v.compact.toList ++ ',' :: (compactItems true (w :: rest)).toList := by
  simp [compactItems]

theorem compactMembers_cons (k : String) (v : Json) (m : String × Json) (rest : List (String × Json)) :
    (compactMembers true ((k, v) :: m :: rest)).toList =
      (Quoted.encode k).toList ++ ':' :: (v.compact.toList ++ ',' :: (compactMembers true (m :: rest)).toList) := by
  simp [compactMembers]

end Json

namespace JsonTree

/-! ### Strings -/

theorem hexValue?_digit : ∀ n < 16, hexValue? (Hex.digit n) = some n := by decide

theorem readString_escape (c : Char) (tail : List Char) :
    readString (Quoted.escape c ++ tail) = (readString tail).map fun r => (c.toNat :: r.1, r.2) := by
  have hbind (k : Nat) {next : List Nat × List Char → Option (List Nat × List Char)}
      (hnext : ∀ r, next r = some (k :: r.1, r.2)) :
      (readString tail >>= next) = (readString tail).map fun r => (k :: r.1, r.2) := by
    cases readString tail with
    | none => rfl
    | some r => exact hnext r
  unfold Quoted.escape
  split_ifs with h1 h2 h3 h4 h5 h6 h7 h8
  · subst h1
    exact hbind 34 fun _ => rfl
  · subst h2
    exact hbind 92 fun _ => rfl
  · rw [h3]
    exact hbind 8 fun _ => rfl
  · rw [h4]
    exact hbind 9 fun _ => rfl
  · rw [h5]
    exact hbind 10 fun _ => rfl
  · rw [h6]
    exact hbind 12 fun _ => rfl
  · rw [h7]
    exact hbind 13 fun _ => rfl
  · have hhigh := hexValue?_digit (c.toNat / 16) (by omega)
    have hlow := hexValue?_digit (c.toNat % 16) (by omega)
    have h0 : hexValue? '0' = some 0 := rfl
    have hunit : 4096 * 0 + 256 * 0 + 16 * (c.toNat / 16) + c.toNat % 16 = c.toNat := by omega
    simp only [List.cons_append, List.nil_append, readString, hhigh, hlow, h0, Option.bind_eq_bind,
      Option.bind_some, hunit]
    exact hbind c.toNat fun _ => rfl
  · have hc : (c.toNat < 32 || c = '\\') = false := by simp [h2]; omega
    rw [List.singleton_append, readString]
    · rw [hc]
      exact hbind c.toNat fun _ => rfl
    · exact h1
    · exact fun _ _ _ _ _ h _ => h2 h
    · exact fun _ _ h _ => h2 h

theorem readString_encodeChars (cs tail : List Char) :
    readString (Quoted.encodeChars cs ++ '"' :: tail) = some (cs.map Char.toNat, tail) := by
  induction cs with
  | nil => rfl
  | cons c rest ih =>
    rw [Quoted.encodeChars, List.append_assoc, readString_escape, ih]
    rfl

theorem toList_encode (s : String) : (Quoted.encode s).toList = '"' :: Quoted.encodeChars s.toList ++ ['"'] :=
  String.toList_ofList

/-! ### Values -/

theorem skipBlanks_cons {c : Char} (h : isBlank c = false) (rest : List Char) : skipBlanks (c :: rest) = c :: rest :=
  List.dropWhile_cons_of_neg (by simp [h])

theorem Closes.cons {c : Char} (h : c = ',' ∨ c = ']' ∨ c = '\x7d') (rest : List Char) : Closes (c :: rest) := by
  intro d hd
  obtain rfl := Option.some.inj hd
  exact h

/-- A number begins with none of the characters of a list without digits and minus signs. -/
theorem IsNumber.begins {cs : List Char} (h : IsNumber cs) (others : List Char)
    (ho : ∀ d ∈ others, d.isDigit = false ∧ d ≠ '-') : ∃ c more, cs = c :: more ∧ c ∉ others := by
  obtain ⟨c, more, rfl, hc⟩ := h.head
  refine ⟨c, more, rfl, fun hm => ?_⟩
  obtain ⟨hd, hs⟩ := ho c hm
  rcases hc with hc | hc
  · simp [hc] at hd
  · exact hs hc

/-- A value begins with a character that is neither blank nor the end of an array. -/
theorem compact_begins {j : Json} (h : j.Finite) :
    ∃ c more, j.compact.toList = c :: more ∧ isBlank c = false ∧ c ≠ ']' := by
  have hnumber {cs : List Char} (hn : IsNumber cs) : ∃ c more, cs = c :: more ∧ isBlank c = false ∧ c ≠ ']' := by
    obtain ⟨c, more, rfl, hc⟩ := hn.begins " \n\t\r]".toList (by simp)
    refine ⟨c, more, rfl, ?_⟩
    simpa [isBlank, and_assoc] using hc
  cases j with
  | null => exact ⟨'n', _, rfl, rfl, by decide⟩
  | bool b => cases b <;> exact ⟨_, _, rfl, rfl, by decide⟩
  | integer n => exact hnumber (.ofInt n)
  | double d => exact hnumber (doubleText_isNumber h.1 h.2)
  | string s => exact ⟨'"', _, toList_encode s, rfl, by decide⟩
  | array items => exact ⟨'[', (Json.compactItems true items ++ "]").toList, by simp [Json.compact], rfl, by decide⟩
  | object members =>
    exact ⟨'\x7b', (Json.compactMembers true members ++ "\x7d").toList, by simp [Json.compact], rfl, by decide⟩

/-- The text of a value reads as the value where nothing more of it follows. Likewise `ReadsItems` for the items of
an array that ends behind them, and `ReadsMembers` for the members of an object. -/
def Reads (j : Json) : Prop :=
  ∀ fuel rest, Closes rest → j.compact.toList.length ≤ fuel →
    readValue fuel (j.compact.toList ++ rest) = some (j.tree, rest)

def ReadsItems (items : List Json) : Prop :=
  ∀ fuel rest, (Json.compactItems true items).toList.length < fuel →
    readItems fuel ((Json.compactItems true items).toList ++ ']' :: rest) = some (Json.treeItems items, rest)

def ReadsMembers (members : List (String × Json)) : Prop :=
  ∀ fuel rest, (Json.compactMembers true members).toList.length < fuel →
    readMembers fuel ((Json.compactMembers true members).toList ++ '\x7d' :: rest) =
      some (Json.treeMembers members, rest)

/-- Enough fuel is not zero. -/
theorem exists_fuel {n fuel : Nat} (h : n < fuel) : ∃ f, fuel = f + 1 ∧ n ≤ f :=
  ⟨fuel - 1, by omega, by omega⟩

namespace ReadsItems

theorem single {v : Json} (h : Reads v) : ReadsItems [v] := by
  intro fuel rest hl
  have ht : Json.compactItems true [v] = v.compact := by simp [Json.compactItems]
  rw [ht] at hl ⊢
  obtain ⟨fuel, rfl, hle⟩ := exists_fuel hl
  rw [readItems, h fuel _ (.cons (.inr (.inl rfl)) rest) hle]
  rfl

theorem cons {v w : Json} {more : List Json} (h : Reads v) (hr : ReadsItems (w :: more)) :
    ReadsItems (v :: w :: more) := by
  intro fuel rest hl
  rw [Json.compactItems_cons] at hl ⊢
  rw [List.length_append, List.length_cons] at hl
  obtain ⟨fuel, rfl, hl⟩ := exists_fuel hl
  have hv := h fuel (',' :: ((Json.compactItems true (w :: more)).toList ++ ']' :: rest)) (.cons (.inl rfl) _)
    (by omega)
  rw [List.append_assoc, List.cons_append, readItems, hv]
  have hmore := hr fuel rest (by omega)
  simp only [Option.bind_eq_bind, Option.bind_some, skipBlanks_cons (c := ',') rfl, hmore]
  rfl

end ReadsItems

theorem readString_encode (s : String) (tail : List Char) :
    ∃ inner, (Quoted.encode s).toList = '"' :: inner ∧ readString (inner ++ tail) = some (Json.units s, tail) := by
  refine ⟨Quoted.encodeChars s.toList ++ ['"'], toList_encode s, ?_⟩
  rw [List.append_assoc]
  exact readString_encodeChars s.toList tail

namespace ReadsMembers

theorem single (k : String) {v : Json} (h : Reads v) : ReadsMembers [(k, v)] := by
  intro fuel rest hl
  have ht : (Json.compactMembers true [(k, v)]).toList = (Quoted.encode k).toList ++ ':' :: v.compact.toList := by
    simp [Json.compactMembers]
  rw [ht, List.length_append, List.length_cons] at hl
  obtain ⟨fuel, rfl, hl⟩ := exists_fuel hl
  have hv := h fuel ('\x7d' :: rest) (.cons (.inr (.inr rfl)) rest) (by omega)
  obtain ⟨inner, hk, hs⟩ := readString_encode k (':' :: (v.compact.toList ++ '\x7d' :: rest))
  rw [ht, hk, List.append_assoc, List.cons_append, List.cons_append, readMembers, skipBlanks_cons rfl]
  simp only [hs, Option.bind_eq_bind, Option.bind_some, skipBlanks_cons (c := ':') rfl, hv,
    skipBlanks_cons (c := '\x7d') rfl]
  rfl

theorem cons (k : String) {v : Json} {m : String × Json} {more : List (String × Json)} (h : Reads v)
    (hr : ReadsMembers (m :: more)) : ReadsMembers ((k, v) :: m :: more) := by
  intro fuel rest hl
  have ht := Json.compactMembers_cons k v m more
  rw [ht, List.length_append, List.length_cons, List.length_append, List.length_cons] at hl
  obtain ⟨fuel, rfl, hl⟩ := exists_fuel hl
  have hmore := hr fuel rest (by omega)
  generalize (Json.compactMembers true (m :: more)).toList = tail at ht hl hmore
  have hv := h fuel (',' :: (tail ++ '\x7d' :: rest)) (.cons (.inl rfl) _) (by omega)
  obtain ⟨inner, hk, hs⟩ := readString_encode k (':' :: (v.compact.toList ++ ',' :: (tail ++ '\x7d' :: rest)))
  have he : (Quoted.encode k).toList ++ ':' :: (v.compact.toList ++ ',' :: tail) ++ '\x7d' :: rest =
      '"' :: (inner ++ ':' :: (v.compact.toList ++ ',' :: (tail ++ '\x7d' :: rest))) := by simp [hk]
  rw [ht, he, readMembers, skipBlanks_cons rfl]
  simp only [hs, Option.bind_eq_bind, Option.bind_some, skipBlanks_cons (c := ':') rfl, hv,
    skipBlanks_cons (c := ',') rfl, hmore]
  rfl

end ReadsMembers

namespace Reads

theorem number {j : Json} (h : IsNumber j.compact.toList) (ht : j.tree = .number) : Reads j := by
  intro fuel rest hr hl
  have hd := h.dropNumber hr
  obtain ⟨c, more, hc, hm⟩ := h.begins " \n\t\r[\x7b\"ntf".toList (by simp)
  have hblank : isBlank c = false := by
    simp at hm
    simp [isBlank, hm]
  rw [hc, List.length_cons] at hl
  obtain ⟨fuel, rfl, -⟩ := exists_fuel hl
  rw [hc, List.cons_append] at hd ⊢
  rw [readValue, skipBlanks_cons hblank, ht]
  split
  case h_7 => rw [hd]; rfl
  all_goals
    next heq =>
      rw [(List.cons.inj heq).1] at hm
      simp at hm

theorem string (s : String) : Reads (.string s) := by
  intro fuel rest hr hl
  obtain ⟨inner, hk, hs⟩ := readString_encode s rest
  rw [Json.compact, hk, List.length_cons] at hl
  obtain ⟨fuel, rfl, -⟩ := exists_fuel hl
  rw [Json.compact, hk, List.cons_append, readValue, skipBlanks_cons rfl]
  simp only [hs, Option.bind_eq_bind, Option.bind_some]
  rfl

theorem array {v : Json} {items : List Json} (hf : v.Finite) (h : ReadsItems (v :: items)) :
    Reads (.array (v :: items)) := by
  intro fuel rest hr hl
  have ht : (Json.array (v :: items)).compact.toList =
      '[' :: ((Json.compactItems true (v :: items)).toList ++ [']']) := by
    simp [Json.compact]
  rw [ht, List.length_cons, List.length_append] at hl
  obtain ⟨fuel, rfl, hle⟩ := exists_fuel hl
  have hi := h fuel rest (Nat.lt_of_succ_le hle)
  obtain ⟨c, more, hc, hblank, hclose⟩ := compact_begins hf
  have hbegin : (Json.compactItems true (v :: items)).toList ++ ']' :: rest =
      c :: (more ++ ((Json.compactItems false items).toList ++ ']' :: rest)) := by
    simp [Json.compactItems, hc]
  have hskip : skipBlanks ((Json.compactItems true (v :: items)).toList ++ ']' :: rest) =
      (Json.compactItems true (v :: items)).toList ++ ']' :: rest := by
    rw [hbegin, skipBlanks_cons hblank]
  rw [ht, List.cons_append, readValue, skipBlanks_cons rfl]
  simp only [List.append_assoc, List.singleton_append, hskip]
  split
  · next heq =>
    rw [hbegin] at heq
    exact absurd (List.cons.inj heq).1 hclose
  · rw [hi]
    rfl

theorem object {k : String} {v : Json} {members : List (String × Json)} (h : ReadsMembers ((k, v) :: members)) :
    Reads (.object ((k, v) :: members)) := by
  intro fuel rest hr hl
  have ht : (Json.object ((k, v) :: members)).compact.toList =
      '\x7b' :: ((Json.compactMembers true ((k, v) :: members)).toList ++ ['\x7d']) := by
    simp [Json.compact]
  rw [ht, List.length_cons, List.length_append] at hl
  obtain ⟨fuel, rfl, hle⟩ := exists_fuel hl
  have hi := h fuel rest (Nat.lt_of_succ_le hle)
  have hbegin : (Json.compactMembers true ((k, v) :: members)).toList ++ '\x7d' :: rest =
      '"' :: (Quoted.encodeChars k.toList ++ '"' :: ':' :: (v.compact.toList ++
        ((Json.compactMembers false members).toList ++ '\x7d' :: rest))) := by
    simp [Json.compactMembers, toList_encode]
  have hskip : skipBlanks ((Json.compactMembers true ((k, v) :: members)).toList ++ '\x7d' :: rest) =
      (Json.compactMembers true ((k, v) :: members)).toList ++ '\x7d' :: rest := by
    rw [hbegin, skipBlanks_cons rfl]
  rw [ht, List.cons_append, readValue, skipBlanks_cons rfl]
  simp only [List.append_assoc, List.singleton_append, hskip]
  split
  · next heq =>
    rw [hbegin] at heq
    simp at heq
  · rw [hi]
    rfl

theorem plain {j : Json} {c : Char} {more : List Char} (hc : j.compact.toList = c :: more)
    (h : ∀ fuel rest, readValue (fuel + 1) (c :: more ++ rest) = some (j.tree, rest)) : Reads j := by
  intro fuel rest hr hl
  rw [hc, List.length_cons] at hl
  obtain ⟨fuel, rfl, -⟩ := exists_fuel hl
  rw [hc]
  exact h fuel rest

end Reads

mutual
theorem reads_of_finite : (j : Json) → j.Finite → Reads j
  | .null, _ => .plain rfl fun _ _ => rfl
  | .bool true, _ => .plain rfl fun _ _ => rfl
  | .bool false, _ => .plain rfl fun _ _ => rfl
  | .integer n, _ => .number (.ofInt n) rfl
  | .double d, h => .number (doubleText_isNumber h.1 h.2) rfl
  | .string s, _ => .string s
  | .array [], _ => .plain rfl fun _ _ => rfl
  | .array (v :: items), h => .array h.1 (readsItems_of_finite (v :: items) h (by simp))
  | .object [], _ => .plain rfl fun _ _ => rfl
  | .object ((k, v) :: members), h =>
    .object (readsMembers_of_finite ((k, v) :: members) h (by simp))

theorem readsItems_of_finite : (items : List Json) → Json.FiniteItems items → items ≠ [] → ReadsItems items
  | [], _, h => absurd rfl h
  | [v], h, _ => .single (reads_of_finite v h.1)
  | v :: w :: items, h, _ =>
    .cons (reads_of_finite v h.1) (readsItems_of_finite (w :: items) h.2 (by simp))

theorem readsMembers_of_finite : (members : List (String × Json)) → Json.FiniteMembers members → members ≠ [] →
    ReadsMembers members
  | [], _, h => absurd rfl h
  | [(k, v)], h, _ => .single k (reads_of_finite v h.1)
  | (k, v) :: m :: members, h, _ =>
    .cons k (reads_of_finite v h.1) (readsMembers_of_finite (m :: members) h.2 (by simp))
end

/-- The compact text of a value is one text of JSON, and reads as the value. -/
theorem ofString?_compact {j : Json} (h : j.Finite) : ofString? j.compact = some j.tree := by
  have hread := reads_of_finite j h (j.compact.toList.length + 1) [] (by simp [Closes]) (Nat.le_succ _)
  rw [List.append_nil] at hread
  rw [ofString?]
  simp only [hread, Option.bind_eq_bind, Option.bind_some]
  rfl

end JsonTree

/-! ### Extended JSON -/

namespace Value

theorem finite_extendedDouble (d : Double) : (extendedDouble d).Finite := by
  unfold extendedDouble
  split
  · exact ⟨trivial, trivial⟩
  · next hn =>
    split
    · exact ⟨trivial, trivial⟩
    · next hi => exact ⟨by simpa using hn, by simpa using hi⟩

mutual
theorem finite_extended : (v : Value) → v.extended.Finite
  | .double d => finite_extendedDouble d
  | .array items => finite_extendedItems items
  | .document fields => finite_extendedFields fields
  | .codeWithScope _ scope => ⟨trivial, finite_extendedFields scope, trivial⟩
  | .dateTime millis => by
    unfold extended
    split <;> simp [wrapped, Json.Finite, Json.FiniteMembers]
  | .undefined | .objectId _ | .code _ | .symbol _ | .decimal _ | .minKey | .maxKey => ⟨trivial, trivial⟩
  | .binary _ _ | .regex _ _ | .timestamp _ _ => ⟨⟨trivial, trivial, trivial⟩, trivial⟩
  | .dbPointer _ _ => ⟨⟨trivial, ⟨trivial, trivial⟩, trivial⟩, trivial⟩
  | .null | .boolean _ | .int32 _ | .int64 _ | .string _ => trivial

theorem finite_extendedItems : (items : List Value) → Json.FiniteItems (extendedItems items)
  | [] => trivial
  | v :: rest => ⟨finite_extended v, finite_extendedItems rest⟩

theorem finite_extendedFields : (fields : List (String × Value)) → Json.FiniteMembers (extendedFields fields)
  | [] => trivial
  | (_, v) :: rest => ⟨finite_extended v, finite_extendedFields rest⟩
end

end Value
end RelDoc
