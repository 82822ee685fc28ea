namespace Plenum

-- Entries in order of insertion. A key that is inserted again keeps its place.
abbrev Table (α : Type) := List (String × α)

namespace Table

variable {α : Type}

def get? (t : Table α) (k : String) : Option α :=
  t.lookup k

def contains (t : Table α) (k : String) : Bool :=
  (t.get? k).isSome

def insert (t : Table α) (k : String) (a : α) : Table α :=
  match t with
  | [] => [(k, a)]
  | (j, b) :: t => if j = k then (k, a) :: t else (j, b) :: insert t k a

def erase (t : Table α) (k : String) : Table α :=
  t.filter (·.1 ≠ k)

def keys (t : Table α) : List String :=
  t.map (·.1)

@[simp]
theorem get?_nil (k : String) : get? ([] : Table α) k = none :=
  rfl

theorem get?_cons (j k : String) (b : α) (t : Table α) :
    get? ((j, b) :: t) k = if j = k then some b else get? t k := by
  by_cases h : j = k
  · subst h
    simp [get?]
  · have h' : (k == j) = false := by simpa using fun e : k = j => h e.symm
    simp [get?, List.lookup_cons, h, h']

@[simp]
theorem get?_insert_self (t : Table α) (k : String) (a : α) : (t.insert k a).get? k = some a := by
  induction t with
  | nil => simp [insert, get?_cons]
  | cons p t ih =>
    obtain ⟨j, b⟩ := p
    by_cases h : j = k <;> simp [insert, get?_cons, h, ih]

theorem get?_insert_of_ne {j k : String} (h : j ≠ k) (t : Table α) (a : α) :
    (t.insert j a).get? k = t.get? k := by
  induction t with
  | nil => simp [insert, get?_cons, h]
  | cons p t ih =>
    obtain ⟨i, b⟩ := p
    by_cases hi : i = j
    · subst hi
      simp [insert, get?_cons, h]
    · simp [insert, get?_cons, hi, ih]

theorem insert_of_get? {t : Table α} {k : String} {a : α} (h : t.get? k = some a) :
    t.insert k a = t := by
  induction t with
  | nil => simp at h
  | cons p t ih =>
    obtain ⟨j, b⟩ := p
    by_cases hj : j = k
    · subst hj
      simp [get?_cons] at h
      simp [insert, h]
    · simp [get?_cons, hj] at h
      simp [insert, hj, ih h]

end Table
end Plenum
