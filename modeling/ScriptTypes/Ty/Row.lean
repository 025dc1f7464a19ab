import ScriptTypes.Assoc
import ScriptTypes.Source.Span

/-! Rows of record types. A record is a list of rows, each a set of fields or a variable that stands for fields not
known yet. Where a label comes several times the last one counts, at the place of the first. -/

namespace ScriptTypes

/-- A row variable as it stands in a record. -/
structure RowVar (V : Type) where
  var : V
  src : Option Node
deriving DecidableEq, Repr

/-- A row over variables `V` whose fields hold `α`. -/
inductive Row (V α : Type) where
  | fields (fields : List (String × α))
  | var (v : RowVar V)

/-- A record with at most one row variable, its fields in one map. -/
structure FlatRecord (V α : Type) where
  fields : Assoc α
  tail : Option (RowVar V)

namespace Row

variable {V α : Type}

/-- The fields that can be seen in rows, inserted after those given. -/
def visibleFrom (seen : Assoc α) : List (Row V α) → Assoc α
  | [] => seen
  | .fields fs :: rows => visibleFrom (Assoc.extend seen fs) rows
  | .var _ :: rows => visibleFrom seen rows

def visible (rows : List (Row V α)) : Assoc α :=
  visibleFrom [] rows

def vars : List (Row V α) → List (RowVar V)
  | [] => []
  | .fields _ :: rows => vars rows
  | .var v :: rows => v :: vars rows

/-- One map of fields and at most one variable. Rows with more variables have no such form. -/
def flatten (rows : List (Row V α)) : Except (List (RowVar V)) (FlatRecord V α) :=
  match vars rows with
  | [] => .ok ⟨visible rows, none⟩
  | [v] => .ok ⟨visible rows, some v⟩
  | vs => .error vs

mutual

/-- Neighbouring sets of fields become one. -/
def merge : List (Row V α) → List (Row V α)
  | [] => []
  | .var v :: rows => .var v :: merge rows
  | .fields fs :: rows => mergeAfter fs rows

def mergeAfter (fs : Assoc α) : List (Row V α) → List (Row V α)
  | [] => [.fields fs]
  | .var v :: rows => .fields fs :: .var v :: merge rows
  | .fields gs :: rows => mergeAfter (Assoc.extend fs gs) rows

end

/-- The rows of a record with the given fields, open if there is a variable. -/
def ofFields (fields : Assoc α) : Option (RowVar V) → List (Row V α)
  | none => [.fields fields]
  | some v => [.var v, .fields fields]

end Row

end ScriptTypes
