/-! Finite maps with string keys, kept as lists in insertion order. A key that is already there keeps its
place and gets the new value. -/

namespace ScriptTypes

abbrev Assoc (α : Type) := List (String × α)

namespace Assoc

variable {α β : Type}

def get? : Assoc α → String → Option α
  | [], _ => none
  | (l, a) :: m, k => if l = k then some a else get? m k

def contains (m : Assoc α) (k : String) : Bool :=
  (get? m k).isSome

/-- A present key gets the value at its old place, a new key comes last. -/
def insert : Assoc α → String → α → Assoc α
  | [], k, a => [(k, a)]
  | (l, b) :: m, k, a => if l = k then (l, a) :: m else (l, b) :: insert m k a

/-- The entries of the second map are inserted one after the other. -/
def extend (m : Assoc α) : Assoc α → Assoc α
  | [] => m
  | (k, a) :: n => extend (insert m k a) n

/-- The map of a list of entries, where the last entry of a key gives its value and the first its place. -/
def ofEntries (entries : List (String × α)) : Assoc α :=
  extend [] entries

/-- The other entries keep their order. -/
def erase : Assoc α → String → Assoc α
  | [], _ => []
  | (l, a) :: m, k => if l = k then m else (l, a) :: erase m k

def keys (m : Assoc α) : List String :=
  m.map Prod.fst

theorem get?_insert_self (m : Assoc α) (k : String) (a : α) : get? (insert m k a) k = some a := by
  induction m with
  | nil => simp [insert, get?]
  | cons e m ih =>
      obtain ⟨l, b⟩ := e
      by_cases h : l = k <;> simp [insert, get?, h, ih]

theorem get?_insert_of_ne (m : Assoc α) {k l : String} (a : α) (h : k ≠ l) :
    get? (insert m k a) l = get? m l := by
  induction m with
  | nil => simp [insert, get?, h]
  | cons e m ih =>
      obtain ⟨j, b⟩ := e
      by_cases hj : j = k
      · subst hj
        simp [insert, get?, h]
      · simp [insert, get?, hj, ih]

end Assoc

end ScriptTypes
