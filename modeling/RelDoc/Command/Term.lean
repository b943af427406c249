import RelDoc.Error

/-!
# Values of commands

A `Term` stands for a value in a command: a literal, the place of a parameter, or a template, which
is a document of terms. Literals are scalars and the fields of a template have distinct names; the
constructors `Term.ofValue` and `Template.ofFields` refuse anything else, and `Term.WellFormed` is
what they guarantee.
-/

namespace RelDoc

inductive Term where
  | literal (v : Value)
  | placeholder (position : Nat)
  | template (fields : List (String × Term))

instance : Inhabited Term := ⟨.placeholder 0⟩

abbrev Template := Dict Term

/-- The first name that occurred before, given the names already seen. -/
def firstRepeated (seen : List String) : List String → Option String
  | [] => none
  | k :: rest => if k ∈ seen then some k else firstRepeated (k :: seen) rest

theorem firstRepeated_eq_none {seen names : List String} :
    firstRepeated seen names = none ↔ names.Nodup ∧ ∀ k ∈ names, k ∉ seen := by
  induction names generalizing seen with
  | nil => simp [firstRepeated]
  | cons k rest ih =>
    by_cases hk : k ∈ seen
    · simp [firstRepeated, hk]
    · simp only [firstRepeated, hk, if_false, ih, List.nodup_cons, List.mem_cons]
      constructor
      · rintro ⟨hn, hs⟩
        refine ⟨⟨fun hm => hs k hm (.inl rfl), hn⟩, ?_⟩
        rintro x (rfl | hx)
        · exact hk
        · exact fun h => hs x hx (.inr h)
      · rintro ⟨⟨hm, hn⟩, hs⟩
        refine ⟨hn, fun x hx h => ?_⟩
        rcases h with rfl | h
        · exact hm hx
        · exact hs x (.inr hx) h

namespace Term

/-- A literal, which has to be a scalar. -/
def ofValue (v : Value) : Except Error Term :=
  match v with
  | .null | .undefined => .error (.assertion .nullLiteral)
  | .array _ | .document _ => .error (.assertion .containerLiteral)
  | v => .ok (.literal v)

mutual
/-- What the constructors guarantee. -/
def WellFormed : Term → Prop
  | literal v => v.isScalar = true
  | placeholder _ => True
  | template fields => (fields.map Prod.fst).Nodup ∧ WellFormedFields fields

def WellFormedFields : List (String × Term) → Prop
  | [] => True
  | (_, t) :: rest => WellFormed t ∧ WellFormedFields rest
end

mutual
/-- The positions of the parameters in a term, in order of writing. -/
def positions : Term → List Nat
  | literal _ => []
  | placeholder n => [n]
  | template fields => fieldPositions fields

def fieldPositions : List (String × Term) → List Nat
  | [] => []
  | (_, t) :: rest => positions t ++ fieldPositions rest
end

mutual
/-- The value of a term whose parameters have the values that `σ` gives. -/
def fill (σ : Nat → Value) : Term → Value
  | literal v => v
  | placeholder n => σ n
  | template fields => .document (fillFields σ fields)

def fillFields (σ : Nat → Value) : List (String × Term) → List (String × Value)
  | [] => []
  | (k, t) :: rest => (k, fill σ t) :: fillFields σ rest
end

end Term

namespace Template

/-- A document of terms with distinct names. -/
def ofFields (fields : List (String × Term)) : Except Error Template :=
  match firstRepeated [] (fields.map Prod.fst) with
  | some name => .error (.assertion (.repeatedField name))
  | none => .ok fields

end Template
end RelDoc
