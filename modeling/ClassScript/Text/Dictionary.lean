/-!
# Dictionaries

Values under text keys, in the order of the keys. Keys are ordered by code points.
-/

namespace ClassScript

structure Dictionary (α : Type) where
  entries : List (String × α) := []
deriving Inhabited

namespace Dictionary

variable {α : Type}

/-- Replaces the value at a key, or puts it before the first larger key. -/
def insertInto (key : String) (a : α) : List (String × α) → List (String × α)
  | [] => [(key, a)]
  | (k, b) :: rest =>
    if key = k then (key, a) :: rest
    else if key < k then (key, a) :: (k, b) :: rest
    else (k, b) :: insertInto key a rest

def set (d : Dictionary α) (key : String) (a : α) : Dictionary α := ⟨insertInto key a d.entries⟩

def get? (d : Dictionary α) (key : String) : Option α := d.entries.lookup key

def contains (d : Dictionary α) (key : String) : Bool := (d.get? key).isSome

def erase (d : Dictionary α) (key : String) : Dictionary α := ⟨d.entries.filter (·.1 != key)⟩

/-- The dictionary of a list of entries; the last of those under one key counts. -/
def ofList (entries : List (String × α)) : Dictionary α :=
  entries.foldl (fun d (k, a) => d.set k a) {}

def isEmpty (d : Dictionary α) : Bool := d.entries.isEmpty

theorem lookup_cons_ite (k k' : String) (b : α) (xs : List (String × α)) :
    ((k', b) :: xs).lookup k = if k = k' then some b else xs.lookup k := by
  by_cases h : k = k'
  · simp [h]
  · simp [List.lookup_cons, h, beq_eq_false_iff_ne.mpr h]

theorem lookup_insertInto (key : String) (a : α) (xs : List (String × α)) (k : String) :
    (insertInto key a xs).lookup k = if k = key then some a else xs.lookup k := by
  induction xs with
  | nil => simp [insertInto, lookup_cons_ite]
  | cons x xs ih => grind [insertInto, lookup_cons_ite]

/-- A value is found where it was put, and nothing else changes. -/
theorem get?_set (d : Dictionary α) (key : String) (a : α) (k : String) :
    (d.set key a).get? k = if k = key then some a else d.get? k :=
  lookup_insertInto key a d.entries k

end Dictionary

end ClassScript
