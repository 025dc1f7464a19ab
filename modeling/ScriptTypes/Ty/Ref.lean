import ScriptTypes.Ty.Binding

/-! Variables of annotations. Such a variable has a name, and belongs to one scope: an annotation, or one use of it.
It has no number until it is first compared with a numbered variable, whose number it then keeps. -/

namespace ScriptTypes

inductive Ref where
  | id (id : VarId)
  | named (name : String) (scope : Nat)
deriving DecidableEq, Repr

instance : Variable Ref := ⟨.id⟩

/-- What is known of a variable: its number, or else the name it was written with. -/
inductive Atom where
  | id (id : VarId)
  | name (name : String)
deriving DecidableEq, Repr

/-- The numbers that named variables have got, by kind, scope and name. -/
abbrev Slots := List ((Kind × Nat × String) × VarId)

namespace Slots

def get? (slots : Slots) (k : Kind) (scope : Nat) (name : String) : Option VarId :=
  List.lookup (k, scope, name) slots

end Slots

namespace Ref

def id? (slots : Slots) (k : Kind) : Ref → Option VarId
  | .id i => some i
  | .named name scope => slots.get? k scope name

def atom (slots : Slots) (k : Kind) (v : Ref) : Atom :=
  match v.id? slots k, v with
  | some i, _ => .id i
  | none, .named name _ => .name name
  | none, .id i => .id i

/-- Give a number to a named variable. -/
def bind (k : Kind) (v : Ref) (i : VarId) : StateM Slots Bool := fun slots =>
  match v with
  | .named name scope => (true, ((k, scope, name), i) :: slots)
  | .id _ => (false, slots)

/-- Two variables without number are the same when their names are. -/
def sameName : Ref → Ref → Bool
  | .named n _, .named n' _ => n == n'
  | _, _ => false

def same (k : Kind) (v w : Ref) : StateM Slots Bool := fun slots =>
  match v.id? slots k, w.id? slots k with
  | some i, some j => (i == j, slots)
  | none, some j => bind k v j slots
  | some i, none => bind k w i slots
  | none, none => (sameName v w, slots)

end Ref

instance : Comparing (StateM Slots) Ref := ⟨Ref.same⟩

/-- The type as it is known with the given numbers. -/
def Ty.resolve (slots : Slots) (t : Ty Ref) : Ty Atom :=
  t.map (Ref.atom slots)

end ScriptTypes
