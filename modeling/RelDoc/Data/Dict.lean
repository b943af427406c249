/-!
# Ordered dictionaries

A `Dict` is a list of named entries in the order in which the names first came. `insert` gives a
known name a new entry at its old place and puts a new name last, so a dictionary built by
insertions (`ofPairs`) has distinct names: each at the place of its first occurrence, with the
entry of its last one (`nodup_keys_ofPairs`, `get?_insert`).
-/

namespace RelDoc

universe u

/-- Named entries in order. -/
abbrev Dict (α : Type u) := List (String × α)

namespace Dict

variable {α : Type u}

/-- The entry under `name`. -/
def get? : Dict α → String → Option α
  | [], _ => none
  | (k, a) :: rest, name => if k = name then some a else get? rest name

/-- Replaces the entry under `name` where it stands, or adds it at the end. -/
def insert : Dict α → String → α → Dict α
  | [], name, a => [(name, a)]
  | (k, b) :: rest, name, a => if k = name then (k, a) :: rest else (k, b) :: insert rest name a

/-- Inserts the entries of `pairs` one after another. -/
def insertAll (d : Dict α) (pairs : List (String × α)) : Dict α :=
  pairs.foldl (fun d p => insert d p.1 p.2) d

/-- The dictionary that the insertions of `pairs`, in order, build. -/
def ofPairs (pairs : List (String × α)) : Dict α := insertAll [] pairs

def keys (d : Dict α) : List String := d.map Prod.fst

def contains (d : Dict α) (name : String) : Bool := (get? d name).isSome

@[simp] theorem get?_nil (name : String) : get? ([] : Dict α) name = none := rfl

theorem get?_cons (k : String) (a : α) (rest : Dict α) (name : String) :
    get? ((k, a) :: rest) name = if k = name then some a else get? rest name := rfl

theorem get?_insert (d : Dict α) (name : String) (a : α) (other : String) :
    get? (insert d name a) other = if name = other then some a else get? d other := by
  induction d with
  | nil => simp [insert, get?]
  | cons p rest ih =>
    obtain ⟨k, b⟩ := p
    by_cases hk : k = name
    · by_cases ho : k = other <;> simp_all [insert, get?]
    · by_cases ho : k = other <;> by_cases hn : name = other <;> simp_all [insert, get?]

@[simp] theorem get?_insert_self (d : Dict α) (name : String) (a : α) :
    get? (insert d name a) name = some a := by simp [get?_insert]

theorem get?_insert_of_ne {name other : String} (h : name ≠ other) (d : Dict α) (a : α) :
    get? (insert d name a) other = get? d other := by simp [get?_insert, h]

theorem get?_isSome (d : Dict α) (name : String) : (get? d name).isSome ↔ name ∈ keys d := by
  induction d with
  | nil => simp [keys]
  | cons p rest ih =>
    obtain ⟨k, b⟩ := p
    by_cases hk : k = name
    · simp [get?, keys, hk]
    · simpa [get?, keys, hk, Ne.symm hk] using ih

/-- A known name keeps its place; a new one goes last. -/
theorem keys_insert (d : Dict α) (name : String) (a : α) :
    keys (insert d name a) = if name ∈ keys d then keys d else keys d ++ [name] := by
  induction d with
  | nil => simp [insert, keys]
  | cons p rest ih =>
    obtain ⟨k, b⟩ := p
    by_cases hk : k = name
    · simp [insert, keys, hk]
    · have ih' : (insert rest name a).map Prod.fst = _ := ih
      by_cases hm : name ∈ keys rest <;> simp_all [insert, keys, Ne.symm hk]

theorem insert_of_not_mem {d : Dict α} {name : String} (h : name ∉ keys d) (a : α) :
    insert d name a = d ++ [(name, a)] := by
  induction d with
  | nil => rfl
  | cons p rest ih =>
    obtain ⟨k, b⟩ := p
    simp only [keys, List.map_cons, List.mem_cons, not_or] at h
    simp [insert, Ne.symm h.1, ih h.2]

theorem nodup_keys_insert {d : Dict α} (h : (keys d).Nodup) (name : String) (a : α) :
    (keys (insert d name a)).Nodup := by
  rw [keys_insert]
  split
  · exact h
  · next hm =>
    rw [List.nodup_append]
    exact ⟨h, by simp, fun x hx y hy => by rintro rfl; simp_all⟩

theorem nodup_keys_insertAll {d : Dict α} (h : (keys d).Nodup) (pairs : List (String × α)) :
    (keys (insertAll d pairs)).Nodup := by
  induction pairs generalizing d with
  | nil => exact h
  | cons p rest ih => exact ih (nodup_keys_insert h p.1 p.2)

theorem nodup_keys_ofPairs (pairs : List (String × α)) : (keys (ofPairs pairs)).Nodup :=
  nodup_keys_insertAll (by simp [keys]) pairs

end Dict
end RelDoc
