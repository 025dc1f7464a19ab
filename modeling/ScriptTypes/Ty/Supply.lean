import ScriptTypes.Ty.Basic

/-! Fresh variables. A supply counts the variables of each kind that have been handed out. A copy of a type gets a
fresh variable for each of its own, and a cache remembers which. -/

namespace ScriptTypes

structure Supply where
  types : VarId
  rows : VarId
deriving DecidableEq, Repr

namespace Supply

def initial : Supply := ⟨0, 0⟩

def next (s : Supply) : Kind → VarId × Supply
  | .type => (s.types, { s with types := s.types + 1 })
  | .row => (s.rows, { s with rows := s.rows + 1 })

variable {V : Type} [Variable V]

def freshVar (s : Supply) (src : Option Node) : Ty V × Supply :=
  let (id, s) := s.next .type
  (.var (Variable.ofId id) src, s)

def freshRowVar (s : Supply) (src : Option Node) : RowVar V × Supply :=
  let (id, s) := s.next .row
  (⟨Variable.ofId id, src⟩, s)

end Supply

/-- The fresh variable of each variable met so far. -/
abbrev Renaming (V : Type) := List ((Kind × V) × VarId)

namespace Renaming

variable {V : Type} [DecidableEq V]

def find? (r : Renaming V) (k : Kind) (v : V) : Option VarId :=
  List.lookup (k, v) r

/-- The fresh variable of a variable, which is new at the first call. -/
def rename (k : Kind) (v : V) : StateM (Supply × Renaming V) VarId := fun (s, r) =>
  match find? r k v with
  | some id => (id, (s, r))
  | none =>
      let (id, s) := s.next k
      (id, (s, ((k, v), id) :: r))

end Renaming

/-- A copy of a type over fresh variables. -/
def Ty.fresh {V : Type} [DecidableEq V] (t : Ty V) : StateM (Supply × Renaming V) (Ty VarId) :=
  t.mapVars Renaming.rename

end ScriptTypes
