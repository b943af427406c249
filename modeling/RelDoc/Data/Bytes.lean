/-!
# Byte strings of a fixed length

Object identifiers, universally unique identifiers and 128-bit decimals are byte strings whose
length is part of their type.
-/

namespace RelDoc

structure Bytes (n : Nat) where
  data : List UInt8
  length_eq : data.length = n
deriving DecidableEq

namespace Bytes

variable {n : Nat}

/-- The byte string itself, if it has `n` bytes. -/
def ofList? (n : Nat) (data : List UInt8) : Option (Bytes n) :=
  if h : data.length = n then some ⟨data, h⟩ else none

/-- The `n` low-order bytes of a number, the most significant first. -/
def ofNat : (n : Nat) → Nat → Bytes n
  | 0, _ => ⟨[], rfl⟩
  | n + 1, k =>
    let rest := ofNat n (k / 256)
    ⟨rest.data ++ [UInt8.ofNat k], by simp [rest.length_eq]⟩

theorem ofList?_data (b : Bytes n) : ofList? n b.data = some b := by
  simp [ofList?, b.length_eq]

theorem ofList?_eq_some {data : List UInt8} {b : Bytes n} :
    ofList? n data = some b ↔ b.data = data := by
  constructor
  · intro h
    unfold ofList? at h
    split at h
    · simp_all only [Option.some.injEq]; rw [← h]
    · simp at h
  · rintro rfl
    exact ofList?_data b

end Bytes

/-- A native identifier of the document database. -/
abbrev ObjectId := Bytes 12

/-- A universally unique identifier. -/
abbrev Uuid := Bytes 16

end RelDoc
